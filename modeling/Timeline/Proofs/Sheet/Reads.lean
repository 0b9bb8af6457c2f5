import Timeline.Css.Excerpt
import Timeline.Proofs.Css.Cutting
import Timeline.Proofs.Css.Words
import Timeline.Proofs.Text.Trimming

/-! Text that is read on its own.

Such text is cut into tokens of its own, whatever comes after it, and these tokens nest into
whole content (`Reads`). Text and content are put together from parts side by side, and what is
shown of content without comments is the text, trimmed (`excerpt_eq_trim`). -/
namespace Timeline.Sheet

open Css (Content Token isBlank lex)
open Text (IsTrimmed isWhiteSpace trim)

/-! ### Tokens of their own -/

/-- In front of `x` a text is cut into the tokens of whole content. -/
structure Reads (text : List Char) (c : Content) (x : List Char) : Prop where
  tokens : lex (text ++ x) = c.tokens ++ lex x
  whole : c.Whole

theorem Reads.append {a b x : List Char} {c d : Content} (hc : Reads a c (b ++ x)) (hd : Reads b d x) :
    Reads (a ++ b) (c.append d) x := by
  refine ⟨?_, Content.whole_append.mpr ⟨hc.whole, hd.whole⟩⟩
  rw [List.append_assoc, hc.tokens, hd.tokens, Content.tokens_append, List.append_assoc]

/-- One token that is no bracket and has no fault. -/
theorem Reads.token {text x : List Char} {t : Token} (h : lex (text ++ x) = t :: lex x) (ho : t.kind.opens? = none)
    (hf : t.kind.fault? = none) : Reads text (.token t .nil) x := ⟨h, ⟨ho, hf⟩, trivial⟩

/-- Content in curly brackets. -/
theorem Reads.block {text x : List Char} {c : Content} (h : Reads text c ('\x7d' :: x)) :
    Reads ('\x7b' :: (text ++ ['\x7d']))
      (.block .curly ⟨.opening .curly, ['\x7b']⟩ c (some ⟨.closing .curly, ['\x7d']⟩) .nil) x := by
  refine ⟨?_, rfl, h.whole, ⟨_, rfl, rfl⟩, trivial⟩
  rw [List.cons_append, List.append_assoc, List.singleton_append, Css.lex_single rfl, h.tokens, Css.lex_single rfl]
  simp [Content.tokens, Css.scanSingle]

/-- Text that does not begin with a blank. -/
def NoBlank (cs : List Char) : Prop := ∀ c ∈ cs.head?, isBlank c = false

theorem NoBlank.append {a : List Char} (h : NoBlank a) (hne : a ≠ []) (b : List Char) : NoBlank (a ++ b) := by
  cases a with
  | nil => exact absurd rfl hne
  | cons => exact h

theorem noBlank_cons {c : Char} (h : isBlank c = false) (cs : List Char) : NoBlank (c :: cs) := by
  intro d hd
  obtain rfl : c = d := Option.some.inj hd
  exact h

/-- A single blank. -/
def space : Content := .token ⟨.blank, [' ']⟩ .nil

theorem isTrivia_space : space.IsTrivia := ⟨rfl, trivial⟩

theorem reads_space {x : List Char} (hx : NoBlank x) : Reads [' '] space x :=
  .token (Css.lex_space hx) rfl rfl

theorem Reads.afterSpace {a x : List Char} {c : Content} (h : Reads a c x) (hb : NoBlank (a ++ x)) :
    Reads (' ' :: a) (space.append c) x := (reads_space hb).append h

theorem Reads.afterColon {a x : List Char} {c : Content} (h : Reads a c x) :
    Reads (':' :: a) (.token ⟨.colon, [':']⟩ c) x := by
  have hcolon : Reads [':'] (.token ⟨.colon, [':']⟩ .nil) (a ++ x) := .token (Css.lex_single rfl _) rfl rfl
  exact hcolon.append h

/-! ### White space -/

theorem trim_space (cs : List Char) : trim (' ' :: cs) = trim cs := rfl

theorem noBlank_of_isTrimmed {cs : List Char} (h : IsTrimmed cs) : NoBlank cs := fun c hc =>
  Css.isBlank_eq_false (p := (! isWhiteSpace ·)) (by simp [h.head c hc]) (by decide)

/-- Without comments an excerpt is the trimmed text. -/
theorem excerpt_eq_trim {c : Content} (h : ∀ t ∈ c.tokens, t.kind.isComment = false) : c.excerpt = trim c.text := by
  rw [Content.excerpt, Css.strip_eq_texts false c.tokens h]
  rfl

/-! ### Plain words -/

/-- Content that begins with a word, has no marks and no comments, and is this text. -/
structure Shows (c : Content) (cs : List Char) : Prop where
  significant : c.Significant
  free : ∀ stops, c.Free stops
  noComment : ∀ t ∈ c.tokens, t.kind.isComment = false
  text : c.text = cs

/-- Words of plain tokens only. -/
def flat (ts : List Token) : Content := ts.foldr .token .nil

theorem whole_flat {ts : List Token} (h : ∀ t ∈ ts, t.kind.isPlain = true) : (flat ts).Whole := by
  induction ts with
  | nil => trivial
  | cons t ts ih =>
    rw [List.forall_mem_cons] at h
    refine ⟨?_, ih h.2⟩
    obtain ⟨kind, text⟩ := t
    cases kind <;> first | exact ⟨rfl, rfl⟩ | cases h.1

theorem tokens_flat (ts : List Token) : (flat ts).tokens = ts := by
  induction ts with
  | nil => rfl
  | cons t ts ih => exact congrArg (t :: ·) ih

theorem shows_flat {ts : List Token} (h : ∀ t ∈ ts, t.kind.isPlain = true) (hne : ts ≠ []) :
    Shows (flat ts) (ts.flatMap Token.text) := by
  have hplain : ∀ t : Token, t.kind.isPlain = true →
      t.mark? = none ∧ t.kind.isTrivia = false ∧ t.kind.isComment = false := by
    intro t ht
    obtain ⟨kind, text⟩ := t
    cases kind <;> first | exact ⟨rfl, rfl, rfl⟩ | cases ht
  refine ⟨?_, ?_, ?_, ?_⟩
  · cases ts with
    | nil => exact absurd rfl hne
    | cons t ts => exact (hplain t (h t List.mem_cons_self)).2.1
  · intro stops
    clear hne
    induction ts with
    | nil => simp [flat, Content.Free, Content.marks]
    | cons t ts ih =>
      rw [List.forall_mem_cons] at h
      exact Content.free_token.mpr ⟨by rw [(hplain t h.1).1]; rfl, ih h.2⟩
  · rw [tokens_flat]
    exact fun t ht => (hplain t (h t ht)).2.2
  · rw [Content.text, tokens_flat]

theorem Shows.append {c d : Content} {a b : List Char} (hc : Shows c a) (hd : ∀ stops, d.Free stops)
    (hn : ∀ t ∈ d.tokens, t.kind.isComment = false) (ht : d.text = b) : Shows (c.append d) (a ++ b) := by
  refine ⟨hc.significant.append d, fun stops => Content.free_append.mpr ⟨hc.free stops, hd stops⟩, ?_, ?_⟩
  · rw [Content.tokens_append, List.forall_mem_append]
    exact ⟨hc.noComment, hn⟩
  · rw [Content.text, Content.tokens_append, List.flatMap_append, ← Content.text, ← Content.text, hc.text, ht]

end Timeline.Sheet
