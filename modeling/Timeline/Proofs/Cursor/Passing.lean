import Mathlib.Tactic.SplitIfs
import Timeline.Proofs.Css.Comment
import Timeline.Proofs.Css.Cutting
import Timeline.Proofs.Css.Places
import Timeline.Proofs.Cursor.Basic
import Timeline.Proofs.Text.Utf8

/-! What a cursor passes.

In front of a cursor there are component values, up to where its block ends (`content`). On its way it covers their tokens:
it notes their comments down, and cuts out runs of them (`Covers`). If it stays in its block, the values that it passed stood
in front of it before, and those that are left are in front of it now (`Passes`). Both can be put together piece by piece,
and each way to go on is such a piece: a token, a comment, a block that is closed or not, and blanks and comments in a row. -/
namespace Timeline

open Css (Bracket Content Diagnostic Fault Kind Mark Passage Token lex scan)
open Journal (Record)

/-! ### Bytes -/

theorem bytes_append (a b : List Char) : bytes (a ++ b) = bytes a + bytes b := by
  rw [bytes, bytes, bytes, Text.utf8_append, List.length_append]

theorem bytes_pos {cs : List Char} (h : cs ≠ []) : 0 < bytes cs := by
  obtain ⟨c, more, rfl⟩ := List.exists_cons_of_ne_nil h
  rw [bytes, Text.length_utf8_cons]
  exact Nat.add_pos_left c.utf8Size_pos _

/-! ### Closing brackets -/

namespace Css

theorem Kind.isComment_of_opens? {k : Kind} {b : Bracket} (h : k.opens? = some b) : k.isComment = false := by
  cases k <;> first | rfl | cases h

/-- A closing bracket shows in its character. -/
theorem closes?_scan (b : Bracket) (c : Char) (cs : List Char) : (scan c cs).1.kind.closes? = some b ↔ c = b.closer := by
  constructor
  · intro h
    rw [Kind.eq_closing] at h
    rcases scan_of_isOver (by rw [h]; rfl) with ⟨-, hr⟩ | ⟨-, hr⟩ | ⟨-, name, hf⟩
    · rw [hr] at h
      cases h
    · rw [hr, scanSingle] at h
      dsimp only at h
      split_ifs at h <;> cases h <;> assumption
    · rw [hf] at h
      cases h
  · rintro rfl
    have hs : isSingle b.closer = true := by cases b <;> rfl
    rw [scan_single hs]
    cases b <;> rfl

namespace Content

/-- A token that opens nothing stands for itself, if it does not close what is open. -/
theorem read_value {inside : Option Bracket} {t : Token} (ts : List Token) (ho : t.kind.opens? = none)
    (hc : ¬ (inside.isSome ∧ t.kind.closes? = inside)) :
    (read inside (t :: ts)).1 = token t (read inside ts).1 ∧
      (read inside (t :: ts)).2.1 = (read inside ts).2.1 := by
  rw [read, if_neg hc]
  split
  · exact ⟨rfl, rfl⟩
  · rename_i b hb
    cases ho.symm.trans hb

/-- A block that nothing closes goes on to the end. -/
theorem read_open (inside : Option Bracket) {b : Bracket} {t : Token} {ts : List Token} (ho : t.kind.opens? = some b)
    (h : (read (some b) ts).2.1 = []) :
    (read inside (t :: ts)).1 = block b t (read (some b) ts).1 none nil ∧ (read inside (t :: ts)).2.1 = [] := by
  have hstop : ¬ (inside.isSome ∧ t.kind.closes? = inside) := by
    rintro ⟨hs, he⟩
    rw [← he, Kind.closes?_of_opens? ho] at hs
    cases hs
  rw [read, if_neg hstop]
  split
  · rename_i hb
    cases ho.symm.trans hb
  · rename_i b' hb
    obtain rfl := Option.some.inj (ho.symm.trans hb)
    split
    · rename_i hr
      rw [hr]
      exact ⟨rfl, rfl⟩
    · rename_i hr
      rw [hr] at h
      cases h

theorem append_cancel {c d e : Content} (h : c.append d = c.append e) : d = e := by
  induction c with
  | nil => exact h
  | token t rest ih => exact ih (token.inj h).2
  | block b opening body closing rest _ ih => exact ih (block.inj h).2.2.2.2

/-- The component value in front. -/
def first : Content → Content
  | nil => nil
  | token t _ => token t nil
  | block b opening body closing _ => block b opening body closing nil

end Content

/-- Whether a comment is closed shows at the end of its text, if the text is long enough. -/
theorem closed_iff {cs : List Char} {closed : Bool} {t : Token} (ht : t ∈ lex cs) (hk : t.kind = .comment closed) :
    closed = true ↔ ¬ (bytes t.text < 4 ∨ ['*', '/'].isSuffixOf t.text = false) := by
  have hhonest := honest_of_mem_lex t ht closed hk
  obtain ⟨u, hu⟩ : ∃ u, t.text = '/' :: '*' :: u := by
    refine forall_mem_lex (motive := fun t => t.kind.isComment = true → ∃ u, t.text = '/' :: '*' :: u)
      (fun c cs hc => ?_) cs t ht (by rw [hk]; rfl)
    cases hkind : (scan c cs).1.kind with
    | comment closed =>
      rcases scan_of_not_isOver (by rw [hkind]; rfl) (by rw [hkind]; rfl) with ⟨rest, hr⟩ | ⟨rest, hr⟩
      · exact ⟨(splitComment rest).1, by rw [hr]; rfl⟩
      · rw [hr] at hkind
        cases hkind
    | _ => rw [hkind] at hc; cases hc
  rw [hhonest, not_or, Bool.not_eq_false, List.isSuffixOf_iff_suffix]
  constructor
  · rintro ⟨words, hwords⟩
    refine ⟨?_, '/' :: '*' :: words, by rw [hwords]; rfl⟩
    have hsize : bytes t.text = 1 + (1 + (bytes words + 2)) := by
      rw [hwords, ← List.singleton_append, bytes_append, ← List.singleton_append (x := '*'), bytes_append, bytes_append]
      rfl
    omega
  · rintro ⟨hlong, front, hfront⟩
    have hsize : bytes front + 2 = bytes t.text := by
      rw [← hfront, bytes_append]
      rfl
    -- The marks at both ends do not overlap.
    rw [hu] at hfront
    rcases front with - | ⟨c, - | ⟨d, words⟩⟩
    · rw [show bytes [] = 0 by rfl] at hsize
      omega
    · obtain ⟨rfl, -⟩ := List.cons.inj hfront
      rw [show bytes ['/'] = 1 by rfl] at hsize
      omega
    · rw [List.cons_append, List.cons_append, List.cons.injEq, List.cons.injEq] at hfront
      exact ⟨words, by rw [hu, ← hfront.2.2]⟩

end Css

/-! ### What is noted down -/

/-- The stretches of the comments among tokens, the first of which begins at a place. -/
def commentsFrom (offset : Nat) : List Token → List Stretch
  | [] => []
  | t :: ts =>
    (if t.kind.isComment then [⟨offset, offset + bytes t.text⟩] else []) ++ commentsFrom (offset + bytes t.text) ts

theorem commentsFrom_append (offset : Nat) (ts us : List Token) : commentsFrom offset (ts ++ us) =
    commentsFrom offset ts ++ commentsFrom (offset + bytes (ts.flatMap Token.text)) us := by
  induction ts generalizing offset with
  | nil => rfl
  | cons t ts ih =>
    rw [List.cons_append, commentsFrom, commentsFrom, ih, List.append_assoc, List.flatMap_cons, bytes_append,
      Nat.add_assoc]

namespace Cut

/-- Some tokens, the first of which begins at a place, cut out and stripped of their comments. -/
def ofTokens (offset : Nat) (ts : List Token) : Cut :=
  ⟨⟨offset, offset + bytes (ts.flatMap Token.text)⟩, commentsFrom 0 ts, Css.strip false false ts⟩

/-- A run of tokens was cut out. -/
def IsOf (offset : Nat) (ts : List Token) (cut : Cut) : Prop :=
  ∃ front run back, ts = front ++ (run ++ back) ∧ cut = ofTokens (offset + bytes (front.flatMap Token.text)) run

theorem IsOf.append_left {offset : Nat} {ts us : List Token} {cut : Cut} (h : IsOf offset ts cut) :
    IsOf offset (ts ++ us) cut := by
  obtain ⟨front, run, back, rfl, hcut⟩ := h
  exact ⟨front, run, back ++ us, by rw [List.append_assoc, List.append_assoc], hcut⟩

theorem IsOf.append_right {offset : Nat} {ts us : List Token} {cut : Cut}
    (h : IsOf (offset + bytes (ts.flatMap Token.text)) us cut) : IsOf offset (ts ++ us) cut := by
  obtain ⟨front, run, back, rfl, rfl⟩ := h
  exact ⟨ts ++ front, run, back, by rw [List.append_assoc],
    by rw [List.flatMap_append, bytes_append, Nat.add_assoc]⟩

end Cut

namespace Cursor

variable {s q r : Cursor} {t : Token}

/-! ### What stands in front -/

/-- The component values up to the end of the block that a cursor is in. -/
def content (s : Cursor) : Content := (Content.read s.inside (lex s.ahead)).1

/-- The tokens from the end of that block on. -/
def behind (s : Cursor) : List Token := (Content.read s.inside (lex s.ahead)).2.1

/-- The component values at their place. -/
def passage (s : Cursor) : Passage := ⟨s.place, s.content⟩

/-- Whether the text or the block ends in front of the cursor. -/
def AtEnd (s : Cursor) : Prop := s.ahead = [] ∨ ∃ b, s.inside = some b ∧ s.ahead.head? = some b.closer

theorem tokens_ahead (s : Cursor) : s.content.tokens ++ s.behind = lex s.ahead := Content.read_append s.inside _

theorem texts_ahead (s : Cursor) : s.content.text ++ s.behind.flatMap Token.text = s.ahead := by
  rw [Content.text, ← List.flatMap_append, tokens_ahead, Css.lex_texts]

/-- In front of a token that closes nothing. -/
theorem token?_eq (h : s.token? = some (t, q)) : ∃ c cs, s.ahead = c :: cs ∧ scan c cs = (t, q.ahead) ∧
    q = s.pass t q.ahead ∧ ¬ (s.inside.isSome ∧ t.kind.closes? = s.inside) := by
  unfold token? at h
  split at h
  · cases h
  · rename_i c cs hs
    split at h
    · cases h
    · rename_i hclosed
      obtain ⟨rfl, rfl⟩ := Prod.mk.inj (Option.some.inj h)
      refine ⟨c, cs, hs, rfl, rfl, ?_⟩
      rintro ⟨hsome, hcloses⟩
      obtain ⟨b, hb⟩ := Option.isSome_iff_exists.mp hsome
      rw [hb, Css.closes?_scan] at hcloses
      exact hclosed (by simp [hb, hcloses])

theorem lex_of_token? (h : s.token? = some (t, q)) : lex s.ahead = t :: lex q.ahead := by
  obtain ⟨c, cs, hs, hscan, -, -⟩ := token?_eq h
  rw [hs, lex, hscan]

/-- There is no token in front where the text or the block ends, and there are no component values. -/
theorem atEnd_iff : s.AtEnd ↔ s.token? = none := by
  unfold token? AtEnd
  split
  · rename_i hs
    simp [hs]
  · rename_i c cs hs
    cases hi : s.inside with
    | none => simp [hs]
    | some b => simp [hs, eq_comm]

theorem content_of_none (h : s.token? = none) : s.content = .nil := by
  rcases atEnd_iff.mpr h with hs | ⟨b, hb, hhead⟩
  · rw [content, hs, lex, Content.read]
  · obtain ⟨cs, hs⟩ := List.head?_eq_some_iff.mp hhead
    rw [content, hs, hb, lex]
    exact (Content.read_closing _ (Kind.eq_closing.mp ((Css.closes?_scan b _ _).mpr rfl))).1

theorem read_of_token? (h : s.token? = some (t, q)) : s.content = (Content.read s.inside (t :: lex q.ahead)).1 ∧
    s.behind = (Content.read s.inside (t :: lex q.ahead)).2.1 := by
  rw [← lex_of_token? h]
  exact ⟨rfl, rfl⟩

/-- A token that opens nothing is a component value. -/
theorem content_of_token (h : s.token? = some (t, q)) (ho : t.kind.opens? = none) :
    s.content = .token t q.content ∧ q.behind = s.behind := by
  obtain ⟨c, cs, -, -, hq, hopen⟩ := token?_eq h
  have hinside : q.inside = s.inside := by rw [hq]; rfl
  obtain ⟨hcontent, hbehind⟩ := Content.read_value (lex q.ahead) ho hopen
  rw [(read_of_token? h).1, (read_of_token? h).2, hcontent, hbehind, ← hinside]
  exact ⟨rfl, rfl⟩

/-- A token that opens a block is one with what the block holds, and with the bracket that closes it, if one does. -/
theorem content_of_block {b : Bracket} (h : s.token? = some (t, q)) (ho : t.kind.opens? = some b) :
    (∃ closing, closing.kind = .closing b ∧ ∃ more, (q.enter b).behind = closing :: more ∧
      s.content = .block b t (q.enter b).content (some closing) (Content.read s.inside more).1 ∧
      s.behind = (Content.read s.inside more).2.1) ∨
    (q.enter b).behind = [] ∧ s.content = .block b t (q.enter b).content none .nil ∧ s.behind = [] := by
  have hrest := Content.read_rest (some b) (lex q.ahead)
  rw [(read_of_token? h).1, (read_of_token? h).2]
  cases hb : (Content.read (some b) (lex q.ahead)).2.1 with
  | cons closing more =>
    rw [hb] at hrest
    exact .inl ⟨closing, Kind.eq_closing.mp (hrest closing rfl).2, more, hb, Content.read_block s.inside ho hb⟩
  | nil => exact .inr ⟨hb, Content.read_open s.inside ho hb⟩

/-! ### Covering tokens -/

/-- On its way from one place to another a cursor covers some tokens, with all their comments. It reports faults and logs
records, and what it cuts out is some of these tokens. -/
structure Covers (s : Cursor) (ts : List Token) (faults : List Diagnostic) (records : List Record) (q : Cursor) :
    Prop where
  passed : q.passed = s.passed ++ ts.flatMap Token.text
  place : q.place = ts.foldl (fun p t => p.advance t.text) s.place
  faults : q.faults = s.faults ++ faults
  comments : q.comments = s.comments ++ commentsFrom s.offset ts
  records : q.records = s.records ++ records
  cuts : ∃ cuts, q.cuts = s.cuts ++ cuts ∧ ∀ cut ∈ cuts, cut.IsOf s.offset ts

variable {ts us : List Token} {c d : Content} {faults faults' : List Diagnostic} {records records' : List Record}

namespace Covers

theorem refl (s : Cursor) : Covers s [] [] [] s where
  passed := (List.append_nil _).symm
  place := rfl
  faults := (List.append_nil _).symm
  comments := (List.append_nil _).symm
  records := (List.append_nil _).symm
  cuts := ⟨[], (List.append_nil _).symm, by simp⟩

theorem offset (h : Covers s ts faults records q) : q.offset = s.offset + bytes (ts.flatMap Token.text) := by
  rw [Cursor.offset, h.passed, bytes_append, Cursor.offset]

theorem append (h : Covers s ts faults records q) (h' : Covers q us faults' records' r) :
    Covers s (ts ++ us) (faults ++ faults') (records ++ records') r where
  passed := by rw [h'.passed, h.passed, List.append_assoc, List.flatMap_append]
  place := by rw [h'.place, h.place, List.foldl_append]
  faults := by rw [h'.faults, h.faults, List.append_assoc]
  comments := by rw [h'.comments, h.comments, h.offset, commentsFrom_append, List.append_assoc]
  records := by rw [h'.records, h.records, List.append_assoc]
  cuts := by
    obtain ⟨cuts, hcuts, hof⟩ := h.cuts
    obtain ⟨cuts', hcuts', hof'⟩ := h'.cuts
    refine ⟨cuts ++ cuts', by rw [hcuts', hcuts, List.append_assoc], ?_⟩
    intro cut hcut
    rcases List.mem_append.mp hcut with hcut | hcut
    · exact (hof cut hcut).append_left
    · have hcut := hof' cut hcut
      rw [h.offset] at hcut
      exact hcut.append_right

/-- One token that is no comment. -/
theorem pass (s : Cursor) (hc : t.kind.isComment = false) (ahead : List Char) : Covers s [t] [] [] (s.pass t ahead) where
  passed := by rw [List.flatMap_singleton]; rfl
  place := rfl
  faults := (List.append_nil _).symm
  comments := by rw [commentsFrom, hc]; exact (List.append_nil _).symm
  records := (List.append_nil _).symm
  cuts := ⟨[], (List.append_nil _).symm, by simp⟩

/-- One comment. -/
theorem comment (s : Cursor) (hc : t.kind.isComment = true) (ahead : List Char) : Covers s [t] [] []
    { s.pass t ahead with comments := s.comments ++ [⟨s.offset, s.offset + bytes t.text⟩] } where
  passed := by rw [List.flatMap_singleton]; rfl
  place := rfl
  faults := (List.append_nil _).symm
  comments := by rw [commentsFrom, hc]; rfl
  records := (List.append_nil _).symm
  cuts := ⟨[], (List.append_nil _).symm, by simp⟩

theorem report (s : Cursor) (fault : Fault) (span : Text.Span) : Covers s [] [⟨fault, span⟩] [] (s.report fault span) :=
  { refl s with faults := rfl }

theorem log (s : Cursor) (record : Record) : Covers s [] [] [record] (s.log record) :=
  { refl s with records := rfl }

/-- Into a block, and out of it, nothing is covered. -/
theorem within (s : Cursor) (inside : Option Bracket) : Covers s [] [] [] (s.within inside) :=
  { refl s with }

end Covers

/-! ### Passing component values -/

/-- On its way a cursor passes some component values, and stays in the block that it is in. -/
structure Passes (s : Cursor) (c : Content) (faults : List Diagnostic) (records : List Record) (q : Cursor) : Prop
    extends Covers s c.tokens faults records q where
  content : s.content = c.append q.content
  behind : q.behind = s.behind
  inside : q.inside = s.inside

namespace Passes

theorem refl (s : Cursor) : Passes s .nil [] [] s := { Covers.refl s with content := rfl, behind := rfl, inside := rfl }

theorem append (h : Passes s c faults records q) (h' : Passes q d faults' records' r) :
    Passes s (c.append d) (faults ++ faults') (records ++ records') r where
  toCovers := by
    rw [Content.tokens_append]
    exact h.toCovers.append h'.toCovers
  content := by rw [h.content, h'.content, Content.append_assoc]
  behind := h'.behind.trans h.behind
  inside := h'.inside.trans h.inside

theorem report (s : Cursor) (fault : Fault) (span : Text.Span) : Passes s .nil [⟨fault, span⟩] [] (s.report fault span) :=
  { Covers.report s fault span with content := rfl, behind := rfl, inside := rfl }

theorem log (s : Cursor) (record : Record) : Passes s .nil [] [record] (s.log record) :=
  { Covers.log s record with content := rfl, behind := rfl, inside := rfl }

/-- The place behind the values that were passed. -/
theorem place_eq (h : Passes s c faults records q) : q.place = c.after s.place := by
  rw [Content.after_eq_foldl, h.place]

theorem offset_eq (h : Passes s c faults records q) : q.offset = s.offset + bytes c.text := h.offset

theorem ahead_eq (h : Passes s c faults records q) : s.ahead = c.text ++ q.ahead := by
  rw [← texts_ahead s, ← texts_ahead q, h.content, h.behind, Content.text, Content.text, Content.tokens_append,
    List.flatMap_append, List.append_assoc]
  rfl

/-- Nothing of the source is lost. -/
theorem source_eq (h : Passes s c faults records q) : q.source = s.source := by
  rw [source, source, h.passed, h.ahead_eq, List.append_assoc]
  rfl

/-- The tokens of what is passed are tokens of the text. -/
theorem lex_eq (h : Passes s c faults records q) : lex s.ahead = c.tokens ++ lex q.ahead := by
  rw [← tokens_ahead s, ← tokens_ahead q, h.content, h.behind, Content.tokens_append, List.append_assoc]

/-- Whatever is left behind the values that are passed is found there. -/
theorem content_eq (h : Passes s c faults records q) (hc : s.content = c.append d) : q.content = d :=
  Content.append_cancel (h.content.symm.trans hc)

theorem of_all (h : Passes s s.content faults records q) : q.content = .nil :=
  h.content_eq (Content.append_nil _).symm

/-- Values have characters. -/
theorem text_ne_nil (h : Passes s c faults records q) (hc : c ≠ .nil) : c.text ≠ [] := by
  obtain ⟨t, ts, hts⟩ : ∃ t ts, c.tokens = t :: ts := by
    cases c with
    | nil => exact absurd rfl hc
    | token t rest => exact ⟨t, _, rfl⟩
    | block b t body closing rest => exact ⟨t, _, rfl⟩
  have ht : t ∈ lex s.ahead := by
    rw [h.lex_eq, hts]
    exact List.mem_append_left _ List.mem_cons_self
  rw [Content.text, hts, List.flatMap_cons]
  exact fun hnil => Css.text_ne_nil t ht (List.append_eq_nil_iff.mp hnil).1

/-- So passing values leads on. -/
theorem offset_lt (h : Passes s c faults records q) (hc : c ≠ .nil) : s.offset < q.offset := by
  rw [h.offset_eq]
  exact Nat.lt_add_of_pos_right (bytes_pos (h.text_ne_nil hc))

theorem length_ahead_lt (h : Passes s c faults records q) (hc : c ≠ .nil) : q.ahead.length < s.ahead.length := by
  rw [h.ahead_eq, List.length_append]
  exact Nat.lt_add_of_pos_left (List.length_pos_iff.mpr (h.text_ne_nil hc))

end Passes

/-- One token that opens nothing and is no comment. -/
theorem passes_token (h : s.token? = some (t, q)) (ho : t.kind.opens? = none) (hc : t.kind.isComment = false) :
    Passes s (.token t .nil) [] [] q := by
  obtain ⟨hcontent, hbehind⟩ := content_of_token h ho
  obtain ⟨-, -, -, -, hq, -⟩ := token?_eq h
  have hcovers := Covers.pass s hc q.ahead
  rw [← hq] at hcovers
  exact { hcovers with content := hcontent, behind := hbehind, inside := by rw [hq]; rfl }

/-- A comment. Its fault is that it is not closed. -/
theorem passes_comment {closed : Bool} (h : s.token? = some (t, q)) (hk : t.kind = .comment closed) :
    Passes s (.token t .nil) (t.kind.fault?.map (⟨·, ⟨s.place, q.place⟩⟩)).toList [] (q.noteComment s t) := by
  obtain ⟨hcontent, hbehind⟩ := content_of_token h (by rw [hk]; rfl)
  obtain ⟨-, -, -, -, hq, -⟩ := token?_eq h
  have hcovers := Covers.comment s (by rw [hk]; rfl) q.ahead
  have hclosed := Css.closed_iff (lex_of_token? h ▸ List.mem_cons_self) hk
  have hnoted : Passes s (.token t .nil) [] []
      { q with comments := q.comments ++ [⟨s.offset, s.offset + bytes t.text⟩] } := by
    rw [hq] at hcontent hbehind ⊢
    exact { hcovers with content := hcontent, behind := hbehind, inside := rfl }
  rw [noteComment, hk]
  cases closed with
  | true =>
    rw [if_neg (hclosed.mp rfl)]
    exact hnoted
  | false =>
    rw [if_pos (Decidable.of_not_not fun hnot => absurd (hclosed.mpr hnot) (by decide))]
    exact hnoted.append (.report _ _ _)

/-- In front of the bracket that closes the only open block, no other one is opened. -/
theorem passBlocks_closing {b : Bracket} {c : Char} {cs : List Char} (hs : s.ahead = c :: cs)
    (hc : (scan c cs).1.kind.closes? = some b) : s.passBlocks [b] = s.pass (scan c cs).1 (scan c cs).2 := by
  rw [passBlocks]
  split
  · rename_i hnil
    cases hs.symm.trans hnil
  · rename_i c' cs' hcons
    obtain ⟨rfl, rfl⟩ := List.cons.inj (hs.symm.trans hcons)
    simp [hc]

theorem passBlocks_nil {opened : List Bracket} (hs : s.ahead = []) : s.passBlocks opened = s := by
  rw [passBlocks]
  split
  · rfl
  · rename_i hcons
    cases hs.symm.trans hcons

theorem covers_enter {b : Bracket} (h : s.token? = some (t, q)) (ho : t.kind.opens? = some b) :
    Covers s [t] [] [] (q.enter b) := by
  obtain ⟨-, -, -, -, hq, -⟩ := token?_eq h
  have hcovers := (Covers.pass s (Css.Kind.isComment_of_opens? ho) q.ahead).append (.within _ (some b))
  rw [← hq] at hcovers
  exact hcovers

/-- A block is left behind the bracket that closes it. -/
theorem leave_of_closing {b : Bracket} {closing : Token} {more : List Token} (hlex : lex s.ahead = closing :: more)
    (hclosing : closing.kind = .closing b) (opening : Text.Span) (outer : Option Bracket) :
    ∃ cs, lex cs = more ∧ s.leave b opening outer = (s.pass closing cs).within outer := by
  cases hfront : s.ahead with
  | nil =>
    rw [hfront, lex] at hlex
    cases hlex
  | cons c cs =>
    rw [hfront, lex] at hlex
    obtain ⟨hscan, hmore⟩ := List.cons.inj hlex
    have hcloses : (scan c cs).1.kind.closes? = some b := by rw [hscan, hclosing]; rfl
    refine ⟨_, hmore, ?_⟩
    rw [leave, passBlocks_closing hfront hcloses, hscan, if_pos (by rw [hfront, (Css.closes?_scan b c cs).mp hcloses]; rfl)]

/-- A block that nothing closes is left where the text ends. -/
theorem leave_of_nil {b : Bracket} (hnil : s.ahead = []) (opening : Text.Span) (outer : Option Bracket) :
    s.leave b opening outer = (s.within outer).report (.unmatched b) opening := by
  rw [leave, passBlocks_nil hnil, if_neg (by rw [hnil]; exact Option.some_ne_none _ ∘ Eq.symm)]

/-- A block, whatever it is read as. -/
theorem passes_block {b : Bracket} {inner : Cursor} (h : s.token? = some (t, q)) (ho : t.kind.opens? = some b)
    (hinner : Passes (q.enter b) (q.enter b).content faults records inner) :
    ∃ closing rest, s.content = .block b t (q.enter b).content closing rest ∧
      Passes s (.block b t (q.enter b).content closing .nil)
        (faults ++ if closing.isSome then [] else [⟨.unmatched b, ⟨s.place, q.place⟩⟩]) records
        (inner.leave b ⟨s.place, q.place⟩ s.inside) := by
  have hbody := (covers_enter h ho).append hinner.toCovers
  have hahead := tokens_ahead inner
  rw [hinner.of_all, hinner.behind] at hahead
  rcases content_of_block h ho with ⟨closing, hclosing, more, hbehind, hcontent, hmore⟩ | ⟨hbehind, hcontent, hmore⟩
  · -- The bracket that closes the block stands in front, and is passed.
    refine ⟨some closing, _, hcontent, ?_⟩
    rw [hbehind] at hahead
    obtain ⟨cs, hlex, hleave⟩ := leave_of_closing hahead.symm hclosing ⟨s.place, q.place⟩ s.inside
    have hcovers := (hbody.append (.pass inner (by rw [hclosing]; rfl) cs)).append (.within _ s.inside)
    rw [hleave]
    exact
      { toCovers := by simpa [Content.tokens] using hcovers
        content := by rw [hcontent, ← hlex]; rfl
        behind := by rw [hmore, ← hlex]; rfl
        inside := rfl }
  · -- Nothing is left.
    refine ⟨none, _, hcontent, ?_⟩
    rw [hbehind] at hahead
    have hnil : inner.ahead = [] := by
      cases hfront : inner.ahead with
      | nil => rfl
      | cons c cs =>
        rw [hfront, lex] at hahead
        cases hahead
    have hcovers := (hbody.append (.within _ s.inside)).append (.report _ (.unmatched b) ⟨s.place, q.place⟩)
    rw [leave_of_nil hnil]
    exact
      { toCovers := by simpa [Content.tokens] using hcovers
        content := by
          rw [hcontent, Content.append, Content.append, content]
          show _ = Content.block b t _ none (Content.read s.inside (lex inner.ahead)).1
          rw [hnil, lex, Content.read]
        behind := by
          rw [hmore]
          show (Content.read s.inside (lex inner.ahead)).2.1 = []
          rw [hnil, lex, Content.read]
        inside := rfl }

/-! ### Blanks and comments -/

theorem place_of_token? (h : s.token? = some (t, q)) : q.place = s.place.advance t.text := by
  obtain ⟨-, -, -, -, hq, -⟩ := token?_eq h
  rw [hq]
  rfl

/-- What stands in front is significant, or there is a blank or comment, or nothing. -/
theorem significant_of_token? (h : s.token? = some (t, q)) (ht : t.kind.isTrivia = false) : s.content.Significant := by
  cases ho : t.kind.opens? with
  | none =>
    rw [(content_of_token h ho).1]
    exact ht
  | some b =>
    rcases content_of_block h ho with ⟨closing, -, more, -, hcontent, -⟩ | ⟨-, hcontent, -⟩
    · rw [hcontent]
      trivial
    · rw [hcontent]
      trivial

theorem passes_skipTrivia (s : Cursor) :
    Passes s s.content.trivia (s.content.trivia.diagnostics s.place) [] s.skipTrivia := by
  fun_induction skipTrivia s with
  | case1 s h =>
    rw [content_of_none h]
    exact .refl s
  | case2 s t q h _ hk ih =>
    have hpass := passes_token h (by rw [hk]; rfl) (by rw [hk]; rfl)
    have htrivia : s.content.trivia = .token t q.content.trivia := by
      rw [hpass.content, Content.append, Content.append, Content.trivia, if_pos (by rw [hk]; rfl)]
    have hfaults : Content.diagnostics s.place (.token t q.content.trivia) = q.content.trivia.diagnostics q.place := by
      rw [Content.diagnostics, hk, hpass.place_eq]
      rfl
    rw [htrivia, hfaults]
    exact hpass.append ih
  | case3 s t q h _ closed hk _ ih =>
    have hpass := passes_comment h hk
    have htrivia : s.content.trivia = .token t (q.noteComment s t).content.trivia := by
      rw [hpass.content, Content.append, Content.append, Content.trivia, if_pos (by rw [hk]; rfl)]
    have hfaults : Content.diagnostics s.place (.token t (q.noteComment s t).content.trivia) =
        (t.kind.fault?.map (⟨·, ⟨s.place, q.place⟩⟩)).toList ++
          (q.noteComment s t).content.trivia.diagnostics (q.noteComment s t).place := by
      rw [hpass.place_eq, place_of_token? h]
      rfl
    rw [htrivia, hfaults]
    exact hpass.append ih
  | case4 s t q h _ hb hc =>
    have htrivia : t.kind.isTrivia = false := by
      cases hk : t.kind <;> first | rfl | exact (hb hk).elim | exact (hc _ hk).elim
    rw [(significant_of_token? h htrivia).trivia]
    exact .refl s

theorem content_skipTrivia (s : Cursor) : s.skipTrivia.content = s.content.skipTrivia :=
  (passes_skipTrivia s).content_eq (Content.trivia_append_skipTrivia _).symm

theorem passage_skipTrivia (s : Cursor) : s.skipTrivia.passage = s.passage.skipTrivia := by
  rw [passage, content_skipTrivia, (passes_skipTrivia s).place_eq]
  rfl

/-- Where no blank or comment stands in front, the cursor stays. -/
theorem skipTrivia_eq (h : s.content.trivia = .nil) : s.skipTrivia = s := by
  rw [skipTrivia]
  split
  · rfl
  · rename_i t q hq
    have hcontent (ht : t.kind.isTrivia = true) : s.content.trivia ≠ .nil := by
      have ho : t.kind.opens? = none := by cases hk : t.kind <;> first | rfl | (rw [hk] at ht; cases ht)
      rw [(content_of_token hq ho).1, Content.trivia, if_pos ht]
      exact Content.noConfusion
    dsimp only
    split
    · rename_i hk
      exact absurd h (hcontent (by rw [hk]; rfl))
    · rename_i closed hk
      exact absurd h (hcontent (by rw [hk]; rfl))
    · rfl

theorem trivia_skipTrivia (s : Cursor) : s.skipTrivia.content.trivia = .nil := by
  rw [content_skipTrivia]
  by_cases h : s.content.skipTrivia = .nil
  · rw [h]
    rfl
  · exact (Content.significant_skipTrivia h).trivia

theorem skipTrivia_skipTrivia (s : Cursor) : s.skipTrivia.skipTrivia = s.skipTrivia := skipTrivia_eq (trivia_skipTrivia s)

/-! ### What stands in front -/

/-- What a cursor may have in front of it, behind blanks and comments. -/
inductive Front (s : Cursor) : Prop where
  | nothing (content : s.content = .nil) (token? : s.token? = none)
  | token (t : Token) (q : Cursor) (token? : s.token? = some (t, q)) (opens? : t.kind.opens? = none)
    (significant : t.kind.isTrivia = false) (content : s.content = .token t q.content)
  | block (b : Bracket) (t : Token) (q : Cursor) (closing : Option Token) (rest : Content) (token? : s.token? = some (t, q))
    (opens? : t.kind.opens? = some b) (content : s.content = .block b t (q.enter b).content closing rest)

theorem front (h : s.content.trivia = .nil) : Front s := by
  cases hq : s.token? with
  | none => exact .nothing (content_of_none hq) hq
  | some next =>
    obtain ⟨t, q⟩ := next
    cases ho : t.kind.opens? with
    | none =>
      have hcontent := (content_of_token hq ho).1
      refine .token t q hq ho ?_ hcontent
      rw [hcontent, Content.trivia] at h
      cases ht : t.kind.isTrivia with
      | false => rfl
      | true =>
        rw [if_pos ht] at h
        cases h
    | some b =>
      rcases content_of_block hq ho with ⟨closing, -, more, -, hcontent, -⟩ | ⟨-, hcontent, -⟩
      · exact .block b t q _ _ hq ho hcontent
      · exact .block b t q _ _ hq ho hcontent

/-- There is no token where no value is left. -/
theorem token?_of_nil (h : s.content = .nil) : s.token? = none := by
  cases front (s := s) (by rw [h]; rfl) with
  | nothing _ htoken => exact htoken
  | token t q _ _ _ hcontent => cases h.symm.trans hcontent
  | block b t q closing rest _ _ hcontent => cases h.symm.trans hcontent

end Cursor
end Timeline
