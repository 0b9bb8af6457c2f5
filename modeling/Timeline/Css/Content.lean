import Timeline.Css.Lexer

/-! Component values.

The tokens of a stylesheet nest: an opening bracket or a function begins a block, and only
its own closing bracket, or the end of the text, ends it. Every other closing bracket in
between is a token like any other.

`tokens_ofTokens`: nesting loses no token and keeps their order. -/
namespace Timeline.Css

open Text (Position)

/-- A run of component values: single tokens and blocks, the first one in front. -/
inductive Content where
  | nil
  | token (token : Token) (rest : Content)
  /-- A block: the token that opens it, what it holds, and the token that closes it, if one does. -/
  | block (bracket : Bracket) (opening : Token) (body : Content) (closing : Option Token) (rest : Content)
deriving DecidableEq, Repr

namespace Content

/-! ### Views -/

/-- The tokens at every depth, in order. -/
def tokens : Content → List Token
  | nil => []
  | token t rest => t :: rest.tokens
  | block _ opening body closing rest => opening :: (body.tokens ++ (closing.toList ++ rest.tokens))

def text (c : Content) : List Char := c.tokens.flatMap Token.text

/-- How many component values there are, what blocks hold not counted. -/
def size : Content → Nat
  | nil => 0
  | token _ rest => rest.size + 1
  | block _ _ _ _ rest => rest.size + 1

/-- One run after another. -/
def append : Content → Content → Content
  | nil, d => d
  | token t rest, d => token t (rest.append d)
  | block b opening body closing rest, d => block b opening body closing (rest.append d)

theorem tokens_append (c d : Content) : (c.append d).tokens = c.tokens ++ d.tokens := by
  induction c with
  | nil => rfl
  | token t rest ih => simp [append, tokens, ih]
  | block b opening body closing rest _ ih => simp [append, tokens, ih]

/-- Where the text of a run ends that begins at `p`. -/
def after (p : Position) : Content → Position
  | nil => p
  | token t rest => rest.after (p.advance t.text)
  | block _ opening body closing rest =>
    let q := body.after (p.advance opening.text)
    rest.after (closing.elim q fun t => q.advance t.text)

theorem after_append (p : Position) (c d : Content) : (c.append d).after p = d.after (c.after p) := by
  induction c generalizing p with
  | nil => rfl
  | token t rest ih => exact ih _
  | block b opening body closing rest _ ih => exact ih _

/-! ### Nesting -/

/-- The component values up to the closing bracket of the block that is open, if one is, and
the tokens from that bracket on. -/
def read (inside : Option Bracket) (ts : List Token) :
    Content × { rest : List Token // rest.length ≤ ts.length } :=
  match ts with
  | [] => (nil, ⟨[], Nat.le_refl _⟩)
  | t :: ts =>
    if inside.isSome ∧ t.kind.closes? = inside then (nil, ⟨t :: ts, Nat.le_refl _⟩)
    else
      match t.kind.opens? with
      | none =>
        let (rest, ⟨last, hl⟩) := read inside ts
        (token t rest, ⟨last, Nat.le_succ_of_le hl⟩)
      | some b =>
        match read (some b) ts with
        | (body, ⟨[], _⟩) => (block b t body none nil, ⟨[], Nat.zero_le _⟩)
        | (body, ⟨closing :: more, hm⟩) =>
          have : more.length < ts.length := hm
          let (rest, ⟨last, hl⟩) := read inside more
          (block b t body (some closing) rest, ⟨last, by simp only [List.length_cons] at *; omega⟩)
termination_by ts.length

/-- The component values of tokens. Outside of all blocks every closing bracket is a token of its own. -/
def ofTokens (ts : List Token) : Content := (read none ts).1

/-- The component values of a text. -/
def ofText (cs : List Char) : Content := ofTokens (lex cs)

theorem read_append (inside : Option Bracket) (ts : List Token) :
    (read inside ts).1.tokens ++ (read inside ts).2.1 = ts := by
  fun_induction read inside ts with
  | case1 => rfl
  | case2 => rfl
  | case3 inside t ts hc ho rest last hl hr ih => rw [hr] at ih; simpa [tokens] using ih
  | case4 inside t ts hc b ho body hr h ih => rw [h] at ih; simpa [tokens] using ih
  | case5 inside t ts hc b ho body closing more hm h hlt rest last hl hr ihb ih =>
    rw [h] at ihb
    rw [hr] at ih
    simp only [tokens, Option.toList_some, List.cons_append, List.append_assoc, List.nil_append] at ihb ih ⊢
    rw [ih, ihb]

/-- What remains when a block is read begins with the bracket that closes it. -/
theorem read_rest (inside : Option Bracket) (ts : List Token) :
    ∀ t ∈ (read inside ts).2.1.head?, inside.isSome ∧ t.kind.closes? = inside := by
  fun_induction read inside ts with
  | case1 => simp
  | case2 inside t ts hc => simpa using hc
  | case3 inside t ts hc ho rest last hl hr ih => rw [hr] at ih; simpa using ih
  | case4 => simp
  | case5 inside t ts hc b ho body closing more hm h hlt rest last hl hr ihb ih =>
    rw [hr] at ih; simpa using ih

theorem tokens_ofTokens (ts : List Token) : (ofTokens ts).tokens = ts := by
  have h := read_append none ts
  have hr := read_rest none ts
  cases hlast : (read none ts).2.1 with
  | nil => rwa [hlast, List.append_nil] at h
  | cons t more => simp [hlast] at hr

theorem text_ofText (cs : List Char) : (ofText cs).text = cs := by
  rw [text, ofText, tokens_ofTokens, lex_texts]

end Content

end Timeline.Css
