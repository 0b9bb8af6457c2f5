import Mathlib.Data.List.TakeWhile
import Timeline.Css.Excerpt
import Timeline.Proofs.Css.Kinds
import Timeline.Proofs.Text.Trimming

/-! Excerpts and the tokens they were made from.

Where a comment goes, its neighbours may grow together: a number and a name into one dimension, an
escape and the blank behind the comment into one character. Where they cannot (`Idle`), a stripped text has
just the tokens that were kept (`lex_strip`). Where trimming, too, takes nothing but blanks (`Untouched`), an
excerpt has all significant tokens of what it was made from (`significant_lex_excerpt`). -/
namespace Timeline.Css

open Text (IsTrimmed isWhiteSpace trim)

variable {b x : List Char} {a c t : Token} {us ts : List Token}

/-! ### Texts of tokens -/

theorem head?_texts (hts : ∀ t ∈ ts, t.text ≠ []) : (ts.flatMap Token.text).head? = ts.head?.bind (·.text.head?) := by
  cases ts with
  | nil => rfl
  | cons t ts =>
    obtain ⟨c, u, hu⟩ := List.exists_cons_of_ne_nil (hts t List.mem_cons_self)
    rw [List.flatMap_cons, hu, List.cons_append, List.head?_cons, List.head?_cons, Option.bind_some, hu, List.head?_cons]

theorem getLast?_texts (hts : ∀ t ∈ ts, t.text ≠ []) :
    (ts.flatMap Token.text).getLast? = ts.getLast?.bind (·.text.getLast?) := by
  cases hl : ts.getLast? with
  | none =>
    rw [List.getLast?_eq_none_iff.mp hl]
    rfl
  | some t =>
    obtain ⟨us, rfl⟩ := List.getLast?_eq_some_iff.mp hl
    have hne : t.text ≠ [] := hts t (by simp)
    rw [List.flatMap_append, List.flatMap_singleton, List.getLast?_append, List.getLast?_eq_some_getLast hne,
      Option.some_or, Option.bind_some, List.getLast?_eq_some_getLast hne]

/-! ### Kept tokens -/

/-- Tokens without blanks and comments. -/
def significant (ts : List Token) : List Token := ts.filter (! ·.kind.isTrivia)

theorem significant_append (ts us : List Token) : significant (ts ++ us) = significant ts ++ significant us :=
  List.filter_append ..

/-- The tokens that stripping leaves. -/
def kept (blankBefore afterComment : Bool) : List Token → List Token
  | [] => []
  | t :: ts =>
    if t.kind.isComment then kept blankBefore true ts
    else if t.kind = .blank ∧ afterComment ∧ blankBefore then kept blankBefore false ts
    else t :: kept (endsBlank t.text) false ts

theorem texts_kept (blankBefore afterComment : Bool) (ts : List Token) :
    (kept blankBefore afterComment ts).flatMap Token.text = strip blankBefore afterComment ts := by
  induction ts generalizing blankBefore afterComment with
  | nil => rfl
  | cons t ts ih =>
    rw [kept, strip]
    split
    · exact ih ..
    split
    · exact ih ..
    · rw [List.flatMap_cons, ih]

theorem mem_of_mem_kept {blankBefore afterComment : Bool} {ts : List Token} :
    ∀ t ∈ kept blankBefore afterComment ts, t ∈ ts ∧ t.kind.isComment = false := by
  fun_induction kept blankBefore afterComment ts with
  | case1 => simp
  | case2 _ _ t ts _ ih | case3 _ _ t ts _ _ ih => exact fun u hu => (ih u hu).imp_left (List.mem_cons_of_mem t)
  | case4 _ _ t ts hc _ ih =>
    rw [List.forall_mem_cons]
    exact ⟨⟨List.mem_cons_self, by simpa using hc⟩, fun u hu => (ih u hu).imp_left (List.mem_cons_of_mem t)⟩

theorem significant_kept (blankBefore afterComment : Bool) (ts : List Token) :
    significant (kept blankBefore afterComment ts) = significant ts := by
  fun_induction kept blankBefore afterComment ts with
  | case1 => rfl
  | case2 _ _ t ts hc ih =>
    have ht : t.kind.isTrivia = true := by cases hk : t.kind <;> simp_all [Kind.isComment, Kind.isTrivia]
    simpa [significant, ht] using ih
  | case3 _ _ t ts _ hb ih => simpa [significant, hb.1, Kind.isTrivia] using ih
  | case4 _ _ t ts _ _ ih =>
    rw [← List.singleton_append, significant_append, ih, ← significant_append, List.singleton_append]

/-- What stands in a token that is neither a blank nor a comment is not lost. -/
theorem mem_strip (ht : t ∈ ts) (hk : t.kind.isTrivia = false) {c : Char} (hc : c ∈ t.text)
    (blankBefore afterComment : Bool) : c ∈ strip blankBefore afterComment ts := by
  have hmem : t ∈ significant (kept blankBefore afterComment ts) := by
    rw [significant_kept]
    exact List.mem_filter.mpr ⟨ht, by simp [hk]⟩
  rw [← texts_kept]
  exact List.mem_flatMap.mpr ⟨t, (List.mem_filter.mp hmem).1, hc⟩

/-! ### Idle comments -/

/-- Whether `b` may follow where a comment stood behind `a`: `a` is over, or `b` does not go on with it. A blank,
besides, must not be taken in by an escape at the end of `a`, or dropped. -/
def Token.MayMeet (a b : Token) : Prop :=
  a.kind.isOver = true ∨
    Barrier b.text ∧ b.text.head? ≠ some '(' ∧
      (startsBlank b.text = true → '\\' ∉ a.text ∧ endsBlank a.text = false)

/-- Comments that part nothing. `before` is the last token that is no comment, `afterComment` whether a comment
follows it. -/
def Idle (before : Option Token) (afterComment : Bool) : List Token → Prop
  | [] => True
  | t :: ts =>
    if t.kind.isComment then Idle before true ts
    else (afterComment = true → ∀ a ∈ before, a.MayMeet t) ∧ Idle (some t) false ts

instance (a b : Token) : Decidable (a.MayMeet b) :=
  inferInstanceAs (Decidable (a.kind.isOver = true ∨
    Barrier b.text ∧ b.text.head? ≠ some '(' ∧
      (startsBlank b.text = true → '\\' ∉ a.text ∧ endsBlank a.text = false)))

instance Idle.decide (before : Option Token) (afterComment : Bool) (ts : List Token) :
    Decidable (Idle before afterComment ts) :=
  match ts with
  | [] => .isTrue trivial
  | t :: ts =>
    have := Idle.decide before true ts
    have := Idle.decide (some t) false ts
    inferInstanceAs (Decidable (if t.kind.isComment then Idle before true ts
      else (afterComment = true → ∀ a ∈ before, a.MayMeet t) ∧ Idle (some t) false ts))

/-! ### Comments that go -/

/-- What behind a comment may follow a token that is not over. -/
theorem barrier_strip (ha : a.kind.isOver = false) (h : Fronts ts b) (hidle : Idle (some a) true ts) :
    Barrier (strip (endsBlank a.text) true ts) ∧ (strip (endsBlank a.text) true ts).head? ≠ some '(' ∧
      (startsBlank (strip (endsBlank a.text) true ts) = true → '\\' ∉ a.text) := by
  induction ts with
  | nil => exact ⟨by simp [strip, Barrier], by simp [strip], by simp [strip, startsBlank]⟩
  | cons t ts ih =>
    obtain ⟨ht, hts⟩ := fronts_cons.mp h
    have hmem : t ∈ lex (t.text ++ (ts.flatMap Token.text ++ b)) := ht ▸ List.mem_cons_self
    rw [Idle] at hidle
    rw [strip]
    split at hidle
    · rename_i hc
      rw [if_pos hc]
      exact ih hts hidle
    · rename_i hc
      obtain ⟨hbarrier, hparen, hblank⟩ := (hidle.1 rfl a rfl).resolve_left (by simp [ha])
      have hkept : ¬ (t.kind = .blank ∧ true = true ∧ endsBlank a.text = true) := by
        rintro ⟨hk, -, he⟩
        rw [(hblank ((blank_of_mem_lex t hmem).1.mpr hk)).2] at he
        cases he
      obtain ⟨d, u, hu⟩ := List.exists_cons_of_ne_nil (text_ne_nil t hmem)
      rw [hu] at hbarrier hparen hblank
      rw [if_neg hc, if_neg hkept, hu, List.cons_append]
      exact ⟨.cons (hbarrier d rfl) _, hparen, fun hs => (hblank hs).1⟩

/-- Behind a blank that a comment follows stands no other one, as the next blank is dropped. -/
theorem startsBlank_strip (h : Fronts ts b) :
    startsBlank (strip true true ts) = false ∧
      (startsBlank (ts.flatMap Token.text ++ b) = false → startsBlank (strip true false ts) = false) := by
  induction ts with
  | nil => exact ⟨rfl, fun _ => rfl⟩
  | cons t ts ih =>
    obtain ⟨ht, hts⟩ := fronts_cons.mp h
    have hmem : t ∈ lex (t.text ++ (ts.flatMap Token.text ++ b)) := ht ▸ List.mem_cons_self
    have hstart : ∀ x, startsBlank (t.text ++ x) = startsBlank t.text := by
      obtain ⟨d, u, hu⟩ := List.exists_cons_of_ne_nil (text_ne_nil t hmem)
      rw [hu]
      exact fun _ => rfl
    rw [strip, strip, List.flatMap_cons, List.append_assoc, hstart]
    by_cases hc : t.kind.isComment = true
    · rw [if_pos hc, if_pos hc]
      exact ⟨(ih hts).1, fun _ => (ih hts).1⟩
    have hkept : ¬ (t.kind = .blank ∧ false = true ∧ true = true) := by simp
    rw [if_neg hc, if_neg hc, if_neg hkept, hstart]
    refine ⟨?_, id⟩
    split
    · rename_i hk
      exact (ih hts).2 (startsBlank_of_lex ht hk.1)
    · rename_i hk
      rw [hstart]
      cases hs : startsBlank t.text with
      | false => rfl
      | true => exact absurd ⟨(blank_of_mem_lex t hmem).1.mp hs, rfl, rfl⟩ hk

theorem endsBlank_of_mem_lex {cs : List Char} (ht : t ∈ lex cs) (hk : t.kind = .blank) : endsBlank t.text = true := by
  have hne := text_ne_nil t ht
  rw [endsBlank, List.getLast?_eq_some_getLast hne]
  exact (blank_of_mem_lex t ht).2 hk _ (List.getLast_mem hne)

/-- Behind a token that is over anything may stand instead of a comment, but for a second blank behind a blank. -/
theorem Fronts.fork_over (h : Fronts (us ++ [a]) ('/' :: x)) (ho : a.kind.isOver = true) {y : List Char}
    (hblank : a.kind = .blank → startsBlank y = false) : Fronts (us ++ [a]) y := by
  obtain ⟨hus, ha⟩ := fronts_append.mp h
  obtain ⟨ha, -⟩ := fronts_cons.mp ha
  obtain ⟨v, m, hm, hswap⟩ := over_of_lex ha ho
  obtain ⟨hways, hlex⟩ := hswap y
  refine fronts_append.mpr ⟨?_, fronts_cons.mpr ⟨hlex hblank, rfl⟩⟩
  -- The last character of `a` is the barrier behind which the text forks.
  rw [List.flatMap_singleton, hm, List.append_assoc, List.singleton_append] at hus ⊢
  exact hus.fork hways (fun _ => rfl) fun _ _ _ => .inl rfl

/-- Behind any other token that may stand which does not go on with it. -/
theorem Fronts.fork_barrier (h : Fronts (us ++ [a]) ('/' :: x)) (ho : a.kind.isOver = false) {y : List Char}
    (hbarrier : Barrier y) (hparen : y.head? ≠ some '(') (hslash : startsBlank y = true → '\\' ∉ a.text) :
    Fronts (us ++ [a]) y := by
  have hways : Ways ('/' :: x) y :=
    ⟨by simp, .cons (by decide) x, hbarrier, by simp [show isBlank '/' = false by decide]⟩
  have hnewline : startsNewline ('/' :: x) = false := startsNewline_eq_false (by rw [startsBlank, List.head?_cons]; decide)
  refine Fronts.fork (v := []) hways h (fun hl => ?_) fun _ t ht => .inr ?_
  · rw [hnewline]
    cases hs : startsBlank y with
    | false => exact (startsNewline_eq_false hs).symm
    | true =>
      rw [List.append_nil, getLast?_texts fun t ht => text_ne_nil t (h ▸ List.mem_append_left _ ht),
        List.getLast?_concat, Option.bind_some] at hl
      exact absurd (List.mem_of_getLast? hl) (hslash hs)
  · obtain rfl : a = t := by simpa using ht
    refine ⟨hparen, fun hs => ⟨hslash hs, fun hk => ?_⟩, fun hn => ?_⟩
    · rw [hk] at ho
      cases ho
    · rw [hnewline] at hn
      cases hn

/-- A comment goes: what stood in front of it is read as before. -/
theorem Fronts.strip_comment (h : Fronts (us ++ [a] ++ c :: ts) b) (hc : c.kind.isComment = true)
    (hidle : Idle (some a) true ts) : Fronts (us ++ [a]) (strip (endsBlank a.text) true ts) := by
  obtain ⟨hfront, hrest⟩ := fronts_append.mp h
  obtain ⟨hcomment, hts⟩ := fronts_cons.mp hrest
  obtain ⟨u, hu⟩ := slash_of_mem_lex c (hcomment ▸ List.mem_cons_self) hc
  rw [List.flatMap_cons, hu, List.cons_append, List.cons_append] at hfront
  cases ho : a.kind.isOver with
  | true =>
    refine hfront.fork_over ho fun hk => ?_
    have ha : a ∈ lex (_ : List Char) := hfront ▸ List.mem_append_left _ (List.mem_append_right _ List.mem_cons_self)
    rw [endsBlank_of_mem_lex ha hk]
    exact (startsBlank_strip hts).1
  | false =>
    obtain ⟨hbarrier, hparen, hslash⟩ := barrier_strip ho hts hidle
    exact hfront.fork_barrier ho hbarrier hparen hslash

/-- In front of a mark of its own a text is read as at its end. -/
theorem Fronts.nil_of_isSingle (h : Fronts ts b) (hb : ∀ c ∈ b.head?, isSingle c = true) : Fronts ts [] := by
  cases b with
  | nil => exact h
  | cons s b =>
    have hways := ways_single (hb s rfl) b []
    have hblank : startsBlank (s :: b) = false := by
      simpa using of_isSingle (k := fun c => ! startsBlank (c :: b)) (by rfl) (hb s rfl)
    have hend : Ways (s :: b) [] := ⟨hways.more, hways.left, by simp [Barrier], hways.unquoted⟩
    refine Fronts.fork (v := []) hend h (fun _ => startsNewline_eq_false hblank) fun _ t _ => .inr ?_
    refine ⟨by simp, by simp [startsBlank], fun hn => ?_⟩
    rw [startsNewline_eq_false hblank] at hn
    cases hn

/-- **Stripped of idle comments a text has the tokens that were kept.** -/
theorem lex_strip {before : Option Token} {afterComment : Bool} (h : Fronts (us ++ ts) b)
    (hb : ∀ c ∈ b.head?, isSingle c = true) (hbefore : us = [] ∨ us.getLast? = before ∧ afterComment = false)
    (hidle : Idle before afterComment ts) :
    lex (us.flatMap Token.text ++ strip (before.any (endsBlank ·.text)) afterComment ts) =
      us ++ kept (before.any (endsBlank ·.text)) afterComment ts := by
  induction ts generalizing us before afterComment with
  | nil =>
    rw [List.append_nil] at h
    have hnil := h.nil_of_isSingle hb
    rwa [Fronts, lex] at hnil
  | cons t ts ih =>
    obtain ⟨ht, hts⟩ := fronts_cons.mp (fronts_append.mp h).2
    rw [Idle] at hidle
    rw [strip, kept]
    split
    · rename_i hc
      rw [if_pos hc] at hidle
      -- What follows the comment is read as if it stood alone, and what stands in front of it as before.
      have hrest := @ih [] before true hts (.inl rfl) hidle
      rcases hbefore with rfl | ⟨hlast, rfl⟩
      · exact hrest
      · cases before with
        | none =>
          obtain rfl := List.getLast?_eq_none_iff.mp hlast
          exact hrest
        | some a =>
          obtain ⟨vs, rfl⟩ := List.getLast?_eq_some_iff.mp hlast
          exact (h.strip_comment hc hidle).trans (congrArg (vs ++ [a] ++ ·) hrest)
    rename_i hc
    rw [if_neg hc] at hidle
    split
    · rename_i hk
      obtain rfl : us = [] := hbefore.resolve_right fun hr => by simp [hr.2] at hk
      have hrest := @ih [] (some t) false hts (.inl rfl) hidle.2
      rw [Option.any_some, endsBlank_of_mem_lex (ht ▸ List.mem_cons_self) hk.1] at hrest
      rw [hk.2.2]
      exact hrest
    · have hrest := @ih (us ++ [t]) (some t) false (by simpa using h) (.inr ⟨by simp, rfl⟩) hidle.2
      simpa using hrest

/-! ### Trimming -/

/-- Whether trimming takes nothing of a token that is the first one. -/
def Token.staysFirst (t : Token) : Bool := ! t.text.head?.any isWhiteSpace

/-- Whether trimming takes nothing of a token that is the last one, as it would the blank of an escape, and whether it
is the same token at the end of a text, as a backslash and a string cut short by its line are not. -/
def Token.staysLast (t : Token) : Bool :=
  ! t.kind.isBadString && ! t.text.getLast?.any fun c => isWhiteSpace c || c = '\\'

theorem Token.staysFirst_iff : t.staysFirst = true ↔ ∀ c ∈ t.text.head?, isWhiteSpace c = false := by
  cases h : t.text.head? <;> simp [staysFirst, h]

theorem Token.staysLast_iff : t.staysLast = true ↔
    t.kind.isBadString = false ∧ ∀ c ∈ t.text.getLast?, isWhiteSpace c = false ∧ c ≠ '\\' := by
  cases h : t.text.getLast? <;> simp [staysLast, h]

/-- Tokens that stripping and trimming leave as they were, blanks and comments apart. -/
structure Untouched (ts : List Token) : Prop where
  idle : Idle none false ts
  first : ∀ t ∈ (significant ts).head?, t.staysFirst = true
  last : ∀ t ∈ (significant ts).getLast?, t.staysLast = true

theorem untouched_iff : Untouched ts ↔ Idle none false ts ∧ (∀ t ∈ (significant ts).head?, t.staysFirst = true) ∧
    ∀ t ∈ (significant ts).getLast?, t.staysLast = true :=
  ⟨fun h => ⟨h.idle, h.first, h.last⟩, fun h => ⟨h.1, h.2.1, h.2.2⟩⟩

instance (ts : List Token) : Decidable (Untouched ts) := decidable_of_iff' _ untouched_iff

section

variable {α : Type} (k : α → Bool) (l : List α)

theorem exists_lead : ∃ lead rest, l = lead ++ rest ∧ (∀ x ∈ lead, k x = false) ∧ rest.head? = (l.filter k).head? := by
  refine ⟨l.takeWhile (! k ·), l.dropWhile (! k ·), List.takeWhile_append_dropWhile.symm, fun x hx => ?_, ?_⟩
  · simpa using List.all_eq_true.mp List.all_takeWhile x hx
  · rw [List.head?_filter, List.find?_eq_head?_dropWhile_not]

/-- A list from its first element of a kind to its last one. -/
theorem exists_core :
    ∃ lead core trail, l = lead ++ (core ++ trail) ∧ (∀ x ∈ lead, k x = false) ∧ (∀ x ∈ trail, k x = false) ∧
      core.head? = (l.filter k).head? ∧ core.getLast? = (l.filter k).getLast? := by
  obtain ⟨lead, rest, rfl, hlead, hhead⟩ := exists_lead k l
  obtain ⟨trail, core, hrest, htrail, hlast⟩ := exists_lead k rest.reverse
  obtain rfl : rest = core.reverse ++ trail.reverse := by
    rw [← List.reverse_append, ← hrest, List.reverse_reverse]
  have hnone : lead.filter k = [] := List.filter_eq_nil_iff.mpr fun x hx => by simp [hlead x hx]
  rw [List.filter_append, hnone, List.nil_append] at hhead ⊢
  rw [List.filter_reverse, List.head?_reverse] at hlast
  refine ⟨lead, core.reverse, trail.reverse, rfl, hlead, fun x hx => htrail x (List.mem_reverse.mp hx), ?_, ?_⟩
  · cases hc : core.reverse with
    | nil =>
      rw [List.reverse_eq_nil_iff.mp hc, List.head?_nil] at hlast
      exact (congrArg List.head? (List.getLast?_eq_none_iff.mp hlast.symm)).symm
    | cons c cs =>
      rw [hc] at hhead
      exact hhead
  · rw [List.getLast?_reverse, hlast]

end

theorem isWhiteSpace_of_isBlank {c : Char} (h : isBlank c = true) : isWhiteSpace c = true := by
  rcases isBlank_iff.mp h with rfl | rfl | rfl | rfl | rfl <;> decide

theorem isBlank_of_mem_texts (h : ∀ t ∈ ts, t ∈ lex x ∧ t.kind = .blank) :
    ∀ c ∈ ts.flatMap Token.text, isBlank c = true := by
  intro c hc
  obtain ⟨t, ht, hct⟩ := List.mem_flatMap.mp hc
  exact (blank_of_mem_lex t (h t ht).1).2 (h t ht).2 c hct

/-- At the end of a text blanks may go. -/
theorem Fronts.nil_of_isBlank (h : Fronts ts b) (hb : ∀ c ∈ b, isBlank c = true)
    (hlast : ∀ t ∈ ts.getLast?, t.kind.isBadString = false ∧ ∀ c ∈ t.text.getLast?, c ≠ '\\') : Fronts ts [] := by
  cases b with
  | nil => exact h
  | cons c b =>
    have hways : Ways (c :: b) [] := by
      refine ⟨by simp, .cons (goesOn_eq_false_of_isBlank (hb c List.mem_cons_self)) b, by simp [Barrier], ?_⟩
      rw [List.dropWhile_eq_nil_iff.mpr hb]
      simp
    refine Fronts.fork (v := []) hways h (fun hl => ?_) fun _ t ht => .inr ?_
    · rw [List.append_nil, getLast?_texts fun t ht => text_ne_nil t (h ▸ List.mem_append_left _ ht)] at hl
      obtain ⟨t, ht, hl⟩ := Option.bind_eq_some_iff.mp hl
      exact absurd rfl ((hlast t ht).2 _ hl)
    · exact ⟨by simp, by simp [startsBlank], fun _ => (hlast t ht).1⟩

theorem isTrimmed_texts (hts : ∀ t ∈ ts, t.text ≠ [])
    (hfirst : ∀ t ∈ ts.head?, ∀ c ∈ t.text.head?, isWhiteSpace c = false)
    (hlast : ∀ t ∈ ts.getLast?, ∀ c ∈ t.text.getLast?, isWhiteSpace c = false) : IsTrimmed (ts.flatMap Token.text) := by
  refine ⟨fun c hc => ?_, fun c hc => ?_⟩
  · rw [head?_texts hts] at hc
    obtain ⟨t, ht, hc⟩ := Option.bind_eq_some_iff.mp hc
    exact hfirst t ht c hc
  · rw [getLast?_texts hts] at hc
    obtain ⟨t, ht, hc⟩ := Option.bind_eq_some_iff.mp hc
    exact hlast t ht c hc

/-- Trimming takes the blanks at both ends of a text, if white space is nowhere else there. -/
theorem significant_lex_trim (h : Fronts ts []) (hts : ∀ t ∈ ts, t.kind.isComment = false)
    (hfirst : ∀ t ∈ (significant ts).head?, t.staysFirst = true)
    (hlast : ∀ t ∈ (significant ts).getLast?, t.staysLast = true) :
    significant (lex (trim (ts.flatMap Token.text))) = significant ts := by
  have hmem : ∀ t ∈ ts, t ∈ lex (ts.flatMap Token.text ++ []) := fun t ht => h ▸ List.mem_append_left _ ht
  obtain ⟨lead, core, trail, hsplit, hlead, htrail, hhead, hend⟩ := exists_core (! ·.kind.isTrivia) ts
  have hblank : ∀ t ∈ ts, (! t.kind.isTrivia) = false → t.kind = .blank := by
    intro t ht hk
    have hn := hts t ht
    cases hkind : t.kind <;> simp_all [Kind.isTrivia, Kind.isComment]
  subst hsplit
  simp only [List.forall_mem_append] at hmem hblank
  have hleadBlank := isBlank_of_mem_texts fun t ht => ⟨hmem.1 t ht, hblank.1 t ht (hlead t ht)⟩
  have htrailBlank := isBlank_of_mem_texts fun t ht => ⟨hmem.2.2 t ht, hblank.2.2 t ht (htrail t ht)⟩
  have hcore : Fronts core [] := by
    refine (fronts_append.mp (fronts_append.mp h).2).1.nil_of_isBlank (by simpa using htrailBlank) fun t ht => ?_
    rw [hend] at ht
    exact (Token.staysLast_iff.mp (hlast t ht)).imp_right fun hl c hc => (hl c hc).2
  have htrimmed : IsTrimmed (core.flatMap Token.text) := by
    refine isTrimmed_texts (fun t ht => text_ne_nil t (hmem.2.1 t ht)) ?_ ?_
    · rw [hhead]
      exact fun t ht => Token.staysFirst_iff.mp (hfirst t ht)
    · rw [hend]
      exact fun t ht c hc => ((Token.staysLast_iff.mp (hlast t ht)).2 c hc).1
  have hnone : ∀ us : List Token, (∀ t ∈ us, (! t.kind.isTrivia) = false) → significant us = [] := fun us hus =>
    List.filter_eq_nil_iff.mpr fun t ht => by rw [hus t ht]; simp
  rw [List.flatMap_append, List.flatMap_append,
    Text.trim_between (fun c hc => isWhiteSpace_of_isBlank (hleadBlank c hc)) htrimmed
      fun c hc => isWhiteSpace_of_isBlank (htrailBlank c hc),
    significant_append, significant_append, hnone lead hlead, hnone trail htrail, List.nil_append, List.append_nil]
  rw [Fronts, List.append_nil, lex, List.append_nil] at hcore
  rw [hcore]

/-! ### Excerpts -/

namespace Content

variable {c : Content}

theorem lex_text (h : Fronts c.tokens b) (hb : ∀ s ∈ b.head?, isSingle s = true) : lex c.text = c.tokens := by
  have hnil := h.nil_of_isSingle hb
  rwa [Fronts, List.append_nil, lex, List.append_nil] at hnil

/-- **An excerpt has the significant tokens of what it was made from**, if stripping and trimming leave them as they were. -/
theorem significant_lex_excerpt (h : Fronts c.tokens b) (hb : ∀ s ∈ b.head?, isSingle s = true)
    (hu : Untouched c.tokens) : significant (lex c.excerpt) = significant c.tokens := by
  have hstrip : lex (strip false false c.tokens) = kept false false c.tokens :=
    @lex_strip _ [] c.tokens none false h hb (.inl rfl) hu.idle
  have hkept : Fronts (kept false false c.tokens) [] := by
    rw [Fronts, texts_kept, List.append_nil, lex, List.append_nil, hstrip]
  have hsig := significant_kept false false c.tokens
  rw [excerpt, ← texts_kept, ← hsig]
  exact significant_lex_trim hkept (fun t ht => (mem_of_mem_kept t ht).2) (hsig ▸ hu.first) (hsig ▸ hu.last)

end Content

/-- Comments between numbers keep their blank, and there is one comment at either end. -/
example : Untouched (lex "/**/ 1px /* x */ 2px/**/".toList) := by decide +kernel

end Timeline.Css
