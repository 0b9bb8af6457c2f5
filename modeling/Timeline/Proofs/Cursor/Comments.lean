import Timeline.Proofs.Css.Excerpt
import Timeline.Proofs.Cursor.Passing

/-! Comments that are stripped from a text.

Of a text that is a run of tokens, each comment is stripped by itself, at its place among the bytes. What is left is what is
left of the tokens (`stripped?_tokens`), and which characters these are can be said without tokens, if it is known which of
them are in comments (`strip_eq_spared`). -/
namespace Timeline

open Css (Fronts Token endsBlank isBlank lex strip)

variable {ts us : List Token} {b : List Char} {t : Token}

/-! ### Stretches of tokens -/

theorem slice?_eq (front part back : List Char) {start stop : Nat} (hstart : start = bytes front)
    (hstop : stop = bytes (front ++ part)) : slice? (front ++ (part ++ back)) start stop = some part := by
  subst hstart hstop
  have hsize : bytes (front ++ part) - bytes front = bytes part := by rw [bytes_append, Nat.add_sub_cancel_left]
  rw [slice?, if_pos (by rw [bytes_append]; exact Nat.le_add_right _ _), hsize, bytes, Text.splitAt?_utf8,
    Option.bind_eq_bind, Option.bind_some]
  dsimp only
  rw [bytes, Text.splitAt?_utf8]
  rfl

/-! ### Stripping one comment after the other -/

theorem endsBlank_append (text : List Char) {more : List Char} (h : more ≠ []) : endsBlank (text ++ more) = endsBlank more := by
  rw [endsBlank, endsBlank, List.getLast?_append, List.getLast?_eq_some_getLast h, Option.some_or]

/-- Blanks are dropped in front alone. -/
theorem strip_false (afterComment : Bool) (ts : List Token) : strip false afterComment ts = strip false false ts := by
  cases ts with
  | nil => rfl
  | cons t ts => simp [strip]

theorem strip_of_ne_blank (blankBefore afterComment : Bool) (h : t.kind ≠ .blank) (ts : List Token) :
    strip blankBefore afterComment (t :: ts) = strip blankBefore false (t :: ts) := by
  simp [strip, h]

namespace Stripping

/-- What is kept in the end. -/
def finish? (raw : List Char) (s : Stripping) : Option (List Char) := do
  let tail ← slice? raw s.next (bytes raw)
  return s.kept ++ tail

theorem stripped?_eq (raw : List Char) (comments : List Stretch) :
    stripped? raw comments = (comments.foldlM (step? raw) start).bind (finish? raw) := rfl

/-- No comment begins in text that was looked at before. -/
def NeverSkips (raw : List Char) (s : Stripping) : List Stretch → Prop
  | [] => True
  | comment :: rest => s.next ≤ comment.start ∧ ∀ next, step? raw s comment = some next → next.NeverSkips raw rest

/-- The blanks behind a comment are one token, or none. -/
theorem takeWhile_texts (h : Fronts (t :: ts) b) :
    ((t :: ts).flatMap Token.text).takeWhile isBlank = if t.kind = .blank then t.text else [] := by
  obtain ⟨ht, hts⟩ := Css.fronts_cons.mp h
  have hmem : t ∈ lex (t.text ++ (ts.flatMap Token.text ++ b)) := ht ▸ List.mem_cons_self
  obtain ⟨hstarts, hall⟩ := Css.blank_of_mem_lex t hmem
  rw [List.flatMap_cons]
  split
  · rename_i hk
    have hrest : Css.startsBlank (ts.flatMap Token.text) = false := by
      have hnot := Css.startsBlank_of_lex ht hk
      cases htexts : ts.flatMap Token.text with
      | nil => rfl
      | cons c cs => rwa [htexts] at hnot
    exact (Css.span_append (Css.startsBlank_eq_false_iff.mp hrest) t.text).1.trans (List.takeWhile_eq_self_iff.mpr (hall hk))
  · rename_i hk
    obtain ⟨c, u, hu⟩ := List.exists_cons_of_ne_nil (Css.text_ne_nil t hmem)
    have hc : isBlank c = false := by
      cases hc : isBlank c with
      | false => rfl
      | true => exact absurd (hstarts.mp (by rw [hu]; exact hc)) hk
    rw [hu, List.cons_append, List.takeWhile_cons, hc]
    rfl

/-- One comment, behind text that is kept. All blanks behind it go if that text ends in one. -/
theorem step?_eq {raw front pending comment behind kept : List Char}
    (hraw : raw = front ++ (pending ++ (comment ++ behind))) {start : Nat} (hstart : start = bytes (front ++ pending)) :
    step? raw ⟨kept, bytes front⟩ ⟨start, start + bytes comment⟩ = some ⟨kept ++ pending,
      bytes (front ++ pending ++ comment ++ if endsBlank (kept ++ pending) then behind.takeWhile isBlank else [])⟩ := by
  subst hstart
  have hle : ¬ bytes (front ++ pending) < bytes front := by
    rw [bytes_append]
    exact Nat.not_lt_of_le (Nat.le_add_right _ _)
  have hpart : slice? raw (bytes front) (bytes (front ++ pending)) = some pending := by
    rw [hraw]
    exact slice?_eq front pending _ rfl rfl
  rw [step?]
  dsimp only
  rw [if_neg hle, hpart]
  dsimp only [Option.bind_eq_bind, Option.bind_some]
  split
  · have hend : bytes (front ++ pending) + bytes comment = bytes (front ++ pending ++ comment) := (bytes_append _ _).symm
    have hall : raw = (front ++ pending ++ comment) ++ (behind ++ []) := by simp [hraw]
    have htail : slice? raw (bytes (front ++ pending) + bytes comment) (bytes raw) = some behind := by
      rw [hall]
      exact slice?_eq _ behind [] hend (by rw [List.append_nil])
    have hblanks : bytes behind = bytes (behind.takeWhile isBlank) + bytes (behind.dropWhile isBlank) := by
      rw [← bytes_append, List.takeWhile_append_dropWhile]
    rw [htail, Option.bind_some, bytes_append (front ++ pending ++ comment), ← hend]
    congr 2
    omega
  · rw [List.append_nil, bytes_append (front ++ pending)]
    rfl

/-- Behind text that was looked at, some text waits to be kept, and then come tokens. Stripping their comments from there
on skips none, and leaves what is left of the tokens. -/
structure Strips (raw front pending kept : List Char) (ts : List Token) : Prop where
  result : ((commentsFrom (bytes (front ++ pending)) ts).foldlM (step? raw) ⟨kept, bytes front⟩).bind (finish? raw) =
    some (kept ++ pending ++ strip (endsBlank (kept ++ pending)) false ts)
  skips : NeverSkips raw ⟨kept, bytes front⟩ (commentsFrom (bytes (front ++ pending)) ts)

section
variable {raw front pending kept : List Char}

theorem Strips.nil (hraw : raw = front ++ pending) : Strips raw front pending kept [] := by
  refine ⟨?_, trivial⟩
  have htail : slice? raw (bytes front) (bytes raw) = some pending := by
    have hslice := slice?_eq front pending [] rfl rfl
    rwa [List.append_nil, ← hraw] at hslice
  rw [commentsFrom, List.foldlM_nil]
  show finish? raw _ = _
  rw [finish?, htail, strip, List.append_nil]
  rfl

/-- A token that is no comment waits, too. -/
theorem Strips.token (hc : t.kind.isComment = false) (hne : t.text ≠ []) (h : Strips raw front (pending ++ t.text) kept ts) :
    Strips raw front pending kept (t :: ts) := by
  obtain ⟨hrest, hskips⟩ := h
  rw [← List.append_assoc front, bytes_append, ← List.append_assoc, endsBlank_append _ hne] at hrest
  rw [← List.append_assoc front, bytes_append] at hskips
  constructor
  · rw [commentsFrom, hc]
    refine hrest.trans ?_
    rw [strip, hc]
    simp
  · rw [commentsFrom, hc]
    exact hskips

/-- A comment goes, with the blanks that are dropped behind it, and then comes what is left of the tokens. -/
theorem Strips.comment {dropped : List Char} {rest : List Token} (hc : t.kind.isComment = true)
    (hraw : raw = front ++ (pending ++ (t.text ++ ts.flatMap Token.text)))
    (hdropped : (if endsBlank (kept ++ pending) then (ts.flatMap Token.text).takeWhile isBlank else []) = dropped)
    (hcomments : ∀ offset, commentsFrom offset ts = commentsFrom (offset + bytes dropped) rest)
    (hstrip : strip (endsBlank (kept ++ pending)) true ts = strip (endsBlank (kept ++ pending)) false rest)
    (h : Strips raw (front ++ pending ++ t.text ++ dropped) [] (kept ++ pending) rest) :
    Strips raw front pending kept (t :: ts) := by
  obtain ⟨hresult, hskips⟩ := h
  have hstep := @step?_eq raw front pending t.text _ kept hraw _ rfl
  rw [hdropped] at hstep
  rw [List.append_nil, List.append_nil] at hresult
  rw [List.append_nil] at hskips
  have hlist : commentsFrom (bytes (front ++ pending)) (t :: ts) =
      ⟨bytes (front ++ pending), bytes (front ++ pending) + bytes t.text⟩ ::
        commentsFrom (bytes (front ++ pending ++ t.text ++ dropped)) rest := by
    rw [commentsFrom, hc, hcomments, bytes_append (front ++ pending ++ t.text), bytes_append (front ++ pending)]
    rfl
  constructor
  · rw [hlist, List.foldlM_cons, hstep, strip, hc, if_pos rfl, hstrip]
    exact hresult
  · rw [hlist]
    refine ⟨?_, fun next hnext => ?_⟩
    · rw [bytes_append]
      exact Nat.le_add_right _ _
    · obtain rfl := Option.some.inj (hstep.symm.trans hnext)
      exact hskips

/-- What is dropped behind a comment, and what is left then: behind a text that ends in a blank the next token is dropped,
if it is a blank. -/
theorem dropped_behind (blankBefore : Bool) (h : Fronts ts b) : ∃ dropped rest, rest.length ≤ ts.length ∧ Fronts rest b ∧
    (if blankBefore then (ts.flatMap Token.text).takeWhile isBlank else []) = dropped ∧
    ts.flatMap Token.text = dropped ++ rest.flatMap Token.text ∧
    (∀ offset, commentsFrom offset ts = commentsFrom (offset + bytes dropped) rest) ∧
    strip blankBefore true ts = strip blankBefore false rest := by
  cases blankBefore with
  | false => exact ⟨[], ts, Nat.le_refl _, h, rfl, rfl, fun _ => rfl, strip_false true ts⟩
  | true =>
    cases ts with
    | nil => exact ⟨[], [], Nat.le_refl _, h, rfl, rfl, fun _ => rfl, rfl⟩
    | cons u us =>
      have htake := takeWhile_texts h
      by_cases hu : u.kind = .blank
      · rw [if_pos hu] at htake
        refine ⟨u.text, us, Nat.le_succ _, (Css.fronts_cons.mp h).2, htake, List.flatMap_cons, fun offset => ?_, ?_⟩
        · rw [commentsFrom, hu]
          rfl
        · rw [strip, hu]
          rfl
      · rw [if_neg hu] at htake
        exact ⟨[], u :: us, Nat.le_refl _, h, htake, rfl, fun _ => rfl, strip_of_ne_blank true true hu us⟩

theorem strips (hraw : raw = front ++ (pending ++ ts.flatMap Token.text)) (h : Fronts ts b) :
    Strips raw front pending kept ts := by
  induction hn : ts.length using Nat.strongRecOn generalizing ts front pending kept with
  | ind n ih =>
    subst hn
    cases ts with
    | nil => exact .nil (by rw [hraw, List.flatMap_nil, List.append_nil])
    | cons t ts =>
      obtain ⟨ht, hts⟩ := Css.fronts_cons.mp h
      have hne : t.text ≠ [] := Css.text_ne_nil t (ht ▸ List.mem_cons_self)
      rw [List.flatMap_cons] at hraw
      cases hc : t.kind.isComment with
      | false => exact .token hc hne (ih _ (Nat.lt_succ_self _) (by rw [hraw, List.append_assoc]) hts rfl)
      | true =>
        obtain ⟨dropped, rest, hle, hrest, hdropped, htexts, hcomments, hstrip⟩ :=
          dropped_behind (endsBlank (kept ++ pending)) hts
        exact .comment hc hraw hdropped hcomments hstrip
          (ih _ (Nat.lt_succ_of_le hle) (by rw [hraw, htexts]; simp) hrest rfl)

end

end Stripping

/-- **Some tokens without their comments.** Stripping the comments of their text one by one skips none, and leaves what is
left of the tokens. -/
theorem stripped?_tokens (h : Fronts ts b) :
    stripped? (ts.flatMap Token.text) (commentsFrom 0 ts) = some (strip false false ts) ∧
      Stripping.start.NeverSkips (ts.flatMap Token.text) (commentsFrom 0 ts) := by
  have hstrips : Stripping.Strips (ts.flatMap Token.text) [] [] [] ts := Stripping.strips rfl h
  rw [Stripping.stripped?_eq]
  exact ⟨hstrips.result, hstrips.skips⟩

/-! ### The stretches of comments -/

theorem mem_commentsFrom {offset : Nat} {comment : Stretch} (h : comment ∈ commentsFrom offset ts) :
    ∃ front t back, ts = front ++ t :: back ∧ t.kind.isComment = true ∧
      comment.start = offset + bytes (front.flatMap Token.text) ∧ comment.stop = comment.start + bytes t.text := by
  induction ts generalizing offset with
  | nil => cases h
  | cons t ts ih =>
    rw [commentsFrom] at h
    rcases List.mem_append.mp h with h | h
    · split at h
      · rename_i hc
        obtain rfl := List.mem_singleton.mp h
        exact ⟨[], t, ts, rfl, hc, rfl, rfl⟩
      · cases h
    · obtain ⟨front, u, back, rfl, hc, hstart, hstop⟩ := ih h
      exact ⟨t :: front, u, back, rfl, hc, by rw [hstart, List.flatMap_cons, bytes_append, Nat.add_assoc], hstop⟩

/-- Comments behind some tokens are told from theirs by where they end. -/
theorem filter_commentsFrom (offset : Nat) (ts : List Token) {us : List Token} (hus : ∀ t ∈ us, t.text ≠ []) :
    (commentsFrom offset (ts ++ us)).filter (fun c => offset ≤ c.start ∧ c.stop ≤ offset + bytes (ts.flatMap Token.text)) =
      commentsFrom offset ts := by
  rw [commentsFrom_append, List.filter_append]
  have hin : ∀ c ∈ commentsFrom offset ts,
      decide (offset ≤ c.start ∧ c.stop ≤ offset + bytes (ts.flatMap Token.text)) = true := by
    intro c hc
    obtain ⟨front, t, back, rfl, -, hstart, hstop⟩ := mem_commentsFrom hc
    rw [List.flatMap_append, List.flatMap_cons, bytes_append, bytes_append, decide_eq_true_iff, hstop, hstart]
    omega
  have hout : ∀ c ∈ commentsFrom (offset + bytes (ts.flatMap Token.text)) us,
      ¬ decide (offset ≤ c.start ∧ c.stop ≤ offset + bytes (ts.flatMap Token.text)) = true := by
    intro c hc
    obtain ⟨front, t, back, rfl, -, hstart, hstop⟩ := mem_commentsFrom hc
    have hpos := bytes_pos (hus t (by simp))
    rw [decide_eq_true_iff, hstop, hstart]
    omega
  rw [List.filter_eq_self.mpr hin, List.filter_eq_nil_iff.mpr hout, List.append_nil]

/-- Stretches are counted from the text that is cut out. -/
theorem map_commentsFrom (offset start : Nat) (ts : List Token) :
    (commentsFrom (offset + start) ts).map (fun c => (⟨c.start - offset, c.stop - offset⟩ : Stretch)) =
      commentsFrom start ts := by
  induction ts generalizing start with
  | nil => rfl
  | cons t ts ih =>
    rw [commentsFrom, commentsFrom, List.map_append, Nat.add_assoc, ih]
    congr 1
    split
    · rw [List.map_singleton, Nat.add_sub_cancel_left, Nat.add_sub_cancel_left]
    · rfl

/-! ### What is spared -/

/-- What is left of a text some characters of which are in comments. Besides these, blanks go that follow a comment, or other
blanks that go, where the text that was spared ends in a blank. -/
def spared (blankBefore afterComment : Bool) : List (Char × Bool) → List Char
  | [] => []
  | (_, true) :: rest => spared blankBefore true rest
  | (c, false) :: rest =>
    if isBlank c ∧ afterComment ∧ blankBefore then spared blankBefore true rest
    else c :: spared (isBlank c) false rest

/-- The characters of tokens, and whether they are in comments. -/
def marked (ts : List Token) : List (Char × Bool) := ts.flatMap fun t => t.text.map (·, t.kind.isComment)

theorem spared_comment (blankBefore afterComment : Bool) {text : List Char} (h : text ≠ []) (rest : List (Char × Bool)) :
    spared blankBefore afterComment (text.map (·, true) ++ rest) = spared blankBefore true rest := by
  induction text generalizing afterComment with
  | nil => exact absurd rfl h
  | cons c text ih =>
    rw [List.map_cons, List.cons_append, spared]
    cases text with
    | nil => rfl
    | cons d text => exact ih true (by simp)

theorem spared_dropped {text : List Char} (h : ∀ c ∈ text, isBlank c = true) (rest : List (Char × Bool)) :
    spared true true (text.map (·, false) ++ rest) = spared true true rest := by
  induction text with
  | nil => rfl
  | cons c text ih =>
    rw [List.map_cons, List.cons_append, spared, if_pos ⟨h c List.mem_cons_self, rfl, rfl⟩]
    exact ih fun d hd => h d (List.mem_cons_of_mem c hd)

theorem endsBlank_cons (c : Char) (text : List Char) :
    endsBlank (c :: text) = if text = [] then isBlank c else endsBlank text := by
  split
  · rename_i hnil
    rw [hnil]
    rfl
  · rename_i hne
    exact endsBlank_append [c] hne

/-- Away from comments all characters are spared. -/
theorem spared_false (blankBefore : Bool) (text : List Char) (rest : List (Char × Bool)) :
    spared blankBefore false (text.map (·, false) ++ rest) =
      text ++ spared (if text = [] then blankBefore else endsBlank text) false rest := by
  induction text generalizing blankBefore with
  | nil => rfl
  | cons c text ih =>
    have hkept : ¬ (isBlank c = true ∧ false = true ∧ blankBefore = true) := by simp
    rw [List.map_cons, List.cons_append, spared, if_neg hkept, ih, if_neg (List.cons_ne_nil c text), endsBlank_cons]
    rfl

theorem spared_token (blankBefore afterComment : Bool) {c : Char} {text : List Char}
    (h : ¬ (isBlank c = true ∧ afterComment = true ∧ blankBefore = true)) (rest : List (Char × Bool)) :
    spared blankBefore afterComment ((c :: text).map (·, false) ++ rest) =
      c :: text ++ spared (endsBlank (c :: text)) false rest := by
  rw [List.map_cons, List.cons_append, spared, if_neg h, spared_false, endsBlank_cons]
  rfl

/-- Where no blank follows, it makes no difference whether a comment went before. -/
theorem spared_true (blankBefore : Bool) {cs : List (Char × Bool)} (h : ∀ c ∈ cs.head?, c.2 = false → isBlank c.1 = false) :
    spared blankBefore true cs = spared blankBefore false cs := by
  match cs with
  | [] => rfl
  | (_, true) :: rest => rfl
  | (c, false) :: rest =>
    have hc : ¬ isBlank c = true := by simpa using h (c, false) rfl rfl
    rw [spared, spared, if_neg fun hk => hc hk.1, if_neg fun hk => hc hk.1]

theorem strip_eq_spared (blankBefore afterComment : Bool) (h : Fronts ts b) :
    strip blankBefore afterComment ts = spared blankBefore afterComment (marked ts) := by
  induction ts generalizing blankBefore afterComment with
  | nil => rfl
  | cons t ts ih =>
    obtain ⟨ht, hts⟩ := Css.fronts_cons.mp h
    have hmem : t ∈ lex (t.text ++ (ts.flatMap Token.text ++ b)) := ht ▸ List.mem_cons_self
    obtain ⟨hstarts, hall⟩ := Css.blank_of_mem_lex t hmem
    have hne : t.text ≠ [] := Css.text_ne_nil t hmem
    have hmarked : marked (t :: ts) = t.text.map (·, t.kind.isComment) ++ marked ts := List.flatMap_cons
    rw [hmarked, strip]
    split
    · rename_i hc
      rw [hc, spared_comment _ _ hne, ih _ _ hts]
    rename_i hc
    rw [Bool.not_eq_true] at hc
    rw [hc]
    split
    · rename_i hk
      obtain ⟨hblank, rfl, rfl⟩ := hk
      rw [spared_dropped (hall hblank), ih _ _ hts, spared_true]
      -- Behind a blank stands no other one.
      intro c hc hfalse
      cases ts with
      | nil => cases hc
      | cons u us =>
        have humem : u ∈ lex (u.text ++ (us.flatMap Token.text ++ b)) := (Css.fronts_cons.mp hts).1 ▸ List.mem_cons_self
        obtain ⟨d, text, htext⟩ := List.exists_cons_of_ne_nil (Css.text_ne_nil u humem)
        have hstart := Css.startsBlank_of_lex ht hblank
        rw [List.flatMap_cons, htext] at hstart
        rw [marked, List.flatMap_cons, htext] at hc
        obtain rfl := Option.some.inj hc
        exact hstart
    · rename_i hk
      obtain ⟨c, text, htext⟩ := List.exists_cons_of_ne_nil hne
      rw [htext, spared_token, ih _ _ hts]
      rintro ⟨hc, hrest⟩
      exact hk ⟨hstarts.mp (by rw [htext]; exact hc), hrest⟩

/-! ### What trimming makes of blanks and comments at the ends -/

theorem Text.trim_append {lead trail : List Char} (hlead : ∀ c ∈ lead, isWhiteSpace c = true)
    (htrail : ∀ c ∈ trail, isWhiteSpace c = true) (cs : List Char) : trim (lead ++ (cs ++ trail)) = trim cs := by
  rw [trim, trim, trimStart_append hlead]
  by_cases hcs : ∀ c ∈ cs, isWhiteSpace c = true
  · rw [trimStart_append hcs, ← List.append_nil cs, trimStart_append hcs, ← List.append_nil trail, trimStart_append htrail]
  · have hstart : trimStart (cs ++ trail) = trimStart cs ++ trail := by
      rw [trimStart, List.dropWhile_append, if_neg]
      · rfl
      · intro hnil
        exact hcs (isWhiteSpace_of_trimStart (List.isEmpty_iff.mp hnil))
    rw [hstart, trimEnd_append htrail]

namespace Css

theorem strip_append (blankBefore afterComment : Bool) (ts us : List Token) : ∃ blankBefore' afterComment',
    strip blankBefore afterComment (ts ++ us) =
      strip blankBefore afterComment ts ++ strip blankBefore' afterComment' us := by
  induction ts generalizing blankBefore afterComment with
  | nil => exact ⟨_, _, rfl⟩
  | cons t ts ih =>
    rw [List.cons_append, strip, strip]
    split
    · exact ih _ _
    split
    · exact ih _ _
    · obtain ⟨blankBefore', afterComment', h⟩ := ih (endsBlank t.text) false
      exact ⟨blankBefore', afterComment', by rw [h, List.append_assoc]⟩

/-- Blanks and comments leave white space. -/
theorem isWhiteSpace_of_mem_strip {cs : List Char} (hts : ∀ t ∈ ts, t ∈ lex cs ∧ t.kind.isTrivia = true)
    (blankBefore afterComment : Bool) : ∀ c ∈ strip blankBefore afterComment ts, Text.isWhiteSpace c = true := by
  intro c hc
  rw [← texts_kept] at hc
  obtain ⟨t, ht, hc⟩ := List.mem_flatMap.mp hc
  obtain ⟨hmem, hcomment⟩ := mem_of_mem_kept t ht
  have hk : t.kind = .blank := by
    have htrivia := (hts t hmem).2
    cases hk : t.kind with
    | blank => rfl
    | comment closed => exact absurd (congrArg Kind.isComment hk) (by rw [hcomment]; exact Bool.false_ne_true)
    | _ => rw [hk] at htrivia; exact nomatch htrivia
  exact isWhiteSpace_of_isBlank ((blank_of_mem_lex t (hts t hmem).1).2 hk c hc)

namespace Content

theorem IsTrivia.forall_tokens {c : Content} (h : c.IsTrivia) : ∀ t ∈ c.tokens, t.kind.isTrivia = true := by
  induction c with
  | nil => simp [tokens]
  | token t rest ih => exact List.forall_mem_cons.mpr ⟨h.1, ih h.2⟩
  | block => exact h.elim

/-- Where something significant stands in front, nothing that went before makes a difference. -/
theorem strip_of_significant {c : Content} (hn : c.Nested) (hc : c = nil ∨ c.Significant) (blankBefore afterComment : Bool) :
    strip blankBefore afterComment c.tokens = strip false false c.tokens := by
  have hfirst {t : Token} (ht : t.kind.isTrivia = false) (ts : List Token) :
      strip blankBefore afterComment (t :: ts) = strip false false (t :: ts) := by
    have hcomment : t.kind.isComment = false := by cases hk : t.kind <;> first | rfl | (rw [hk] at ht; cases ht)
    have hblank : t.kind ≠ .blank := by
      rintro hk
      rw [hk] at ht
      cases ht
    simp [strip, hcomment, hblank]
  cases c with
  | nil => rfl
  | token t rest => exact hfirst (hc.resolve_left Content.noConfusion) _
  | block b opening body closing rest =>
    refine hfirst ?_ _
    have ho := hn.1
    cases hk : opening.kind <;> first | rfl | (rw [hk] at ho; cases ho)

/-- An excerpt does not depend on the blanks and comments at its ends. -/
theorem excerpt_around {lead core trail : Content} {cs : List Char} (hlead : lead.IsTrivia) (htrail : trail.IsTrivia)
    (hn : core.Nested) (hcore : core = nil ∨ core.Significant)
    (hmem : ∀ t ∈ (lead.append (core.append trail)).tokens, t ∈ lex cs) :
    (lead.append (core.append trail)).excerpt = Text.trim (strip false false core.tokens) := by
  rw [tokens_append, tokens_append] at hmem
  rw [excerpt, tokens_append, tokens_append]
  obtain ⟨blankBefore, afterComment, hfirst⟩ := strip_append false false lead.tokens (core.tokens ++ trail.tokens)
  obtain ⟨blankBefore', afterComment', hsecond⟩ := strip_append blankBefore afterComment core.tokens trail.tokens
  rw [hfirst, hsecond, strip_of_significant hn hcore]
  refine Text.trim_append ?_ ?_ _
  · exact isWhiteSpace_of_mem_strip (fun t ht => ⟨hmem t (List.mem_append_left _ ht), hlead.forall_tokens t ht⟩) _ _
  · exact isWhiteSpace_of_mem_strip (fun t ht =>
      ⟨hmem t (List.mem_append_right _ (List.mem_append_right _ ht)), htrail.forall_tokens t ht⟩) _ _

end Content

end Css

end Timeline
