import Timeline.Proofs.Css.Barrier

/-! Pieces in front of a fork.

What is cut off a text as one blank, an escape, or a piece of a name, a string or an address depends at most on
the character behind it. So all pieces up to some place stay the same where the text goes on differently
from there (`PieceRule.run_swap`). -/
namespace Timeline.Css

open Text (isNewline)

variable {u b digits w w' x x' : List Char} {piece : Piece}

/-! ### Blanks and escapes -/

theorem splitBlank_cons (c : Char) (x : List Char) :
    splitBlank (c :: x) =
      if c = '\r' ∧ x.head? = some '\n' then (['\r', '\n'], x.tail)
      else if isBlank c then ([c], x) else ([], c :: x) := by
  by_cases h : c = '\r' ∧ x.head? = some '\n'
  · obtain ⟨rfl, hx⟩ := h
    obtain ⟨rest, rfl⟩ := List.head?_eq_some_iff.mp hx
    rfl
  · rw [if_neg h, splitBlank.eq_2]
    intro rest hc hx
    exact h ⟨hc, by rw [hx]; rfl⟩

/-- Behind a text that is as it was to its first character, or that begins with no blank. -/
theorem splitBlank_swap (h : splitBlank (b ++ w) = (b, w)) (hw : w.head? = w'.head? ∨ startsBlank w' = false) :
    splitBlank (b ++ w') = (b, w') := by
  cases b with
  | nil =>
    have hblank : startsBlank w' = false := by
      refine hw.elim (fun hh => ?_) id
      rw [startsBlank, ← hh]
      cases w with
      | nil => rfl
      | cons c w =>
        rw [List.nil_append, splitBlank_cons] at h
        split at h
        · simp at h
        split at h
        · simp at h
        · simpa using ‹¬ isBlank c = true›
    cases w' with
    | nil => rfl
    | cons c w' =>
      have hc : isBlank c = false := hblank
      rw [List.nil_append, splitBlank_cons, if_neg, if_neg (by simp [hc])]
      intro hr
      rw [hr.1] at hc
      cases hc
  | cons c b =>
    rw [List.cons_append, splitBlank_cons] at h ⊢
    split at h
    · rename_i hr
      obtain ⟨hb, hw⟩ := Prod.mk.inj h
      obtain ⟨rfl, rfl⟩ := List.cons.inj hb
      rfl
    split at h
    · rename_i hr hblank
      obtain ⟨hb, -⟩ := Prod.mk.inj h
      obtain rfl : [] = b := (List.cons.inj hb).2
      rw [if_neg, if_pos hblank]
      · rfl
      · intro hr'
        refine hw.elim (fun hh => hr ⟨hr'.1, hh.trans hr'.2⟩) fun hh => ?_
        rw [startsBlank, show w'.head? = _ from hr'.2] at hh
        cases hh
    · simp at h

/-- Up to six characters of a class, behind which stands no other one of it. -/
theorem take_takeWhile_swap {k : Char → Bool} {n : Nat} (h : ((digits ++ x).take n).takeWhile k = digits)
    (hx : x.head? = x'.head? ∨ ∀ c ∈ x'.head?, k c = false) : ((digits ++ x').take n).takeWhile k = digits := by
  induction n generalizing digits with
  | zero => exact h
  | succ n ih =>
    cases digits with
    | nil =>
      cases x' with
      | nil => rfl
      | cons c x' =>
        have hc : k c = false := by
          refine hx.elim (fun hh => ?_) fun hh => hh c rfl
          obtain ⟨rest, rfl⟩ := List.head?_eq_some_iff.mp hh
          cases hc : k c with
          | false => rfl
          | true => simp [hc] at h
        simp [hc]
    | cons d digits =>
      rw [List.cons_append, List.take_succ_cons, List.takeWhile_cons] at h ⊢
      split at h
      · rename_i hd
        rw [if_pos hd, ih (List.cons.inj h).2]
      · cases h

theorem isHexDigit_goesOn {c : Char} (h : isHexDigit c = true) : goesOn c = true := by
  have hname : isNameChar c = true := by
    simp only [isHexDigit, isNameChar, isNameStart, Bool.or_eq_true, Bool.and_eq_true, decide_eq_true_eq,
      Char.le_def, UInt32.le_iff_toNat_le] at *
    rcases h with (h | h) | h
    · exact .inl (.inr h)
    · exact .inl (.inl (.inl (.inl (.inl (.inl ⟨h.1, Nat.le_trans h.2 (by decide)⟩)))))
    · exact .inl (.inl (.inl (.inl (.inl (.inr ⟨h.1, Nat.le_trans h.2 (by decide)⟩)))))
  rw [goesOn, hname, Bool.true_or]

theorem escape_hexDigit {c : Char} {cs : List Char} (hc : isHexDigit c = true) :
    escape (c :: cs) =
      (⟨'\\' :: (((c :: cs).take 6).takeWhile isHexDigit ++
          (splitBlank ((c :: cs).drop (((c :: cs).take 6).takeWhile isHexDigit).length)).1),
        [codePoint (hexValue (((c :: cs).take 6).takeWhile isHexDigit))]⟩,
        (splitBlank ((c :: cs).drop (((c :: cs).take 6).takeWhile isHexDigit).length)).2) := by
  rw [escape, if_pos hc]

/-- An escape takes in more than its backslash, if anything follows. -/
theorem escape_text (h : escape (u ++ w) = (piece, w)) (hmore : w ≠ []) : piece.text = '\\' :: u ∧ u ≠ [] := by
  have htext : piece.text = '\\' :: u := by
    have happ := (escape_append (u ++ w)).1
    rw [h, ← List.cons_append] at happ
    exact List.append_cancel_right happ
  refine ⟨htext, fun hu => ?_⟩
  subst hu
  obtain ⟨c, cs, rfl⟩ := List.exists_cons_of_ne_nil hmore
  rw [List.nil_append, escape] at h
  split at h
  · rename_i hc
    obtain ⟨rfl, -⟩ := Prod.mk.inj h
    simp [hc] at htext
  · obtain ⟨rfl, -⟩ := Prod.mk.inj h
    simp at htext

theorem escape_swap (h : escape (u ++ w) = (piece, w)) (hmore : w ≠ [])
    (hw : w.head? = w'.head? ∨ Barrier w' ∧ startsBlank w' = false) : escape (u ++ w') = (piece, w') := by
  obtain ⟨htext, hne⟩ := escape_text h hmore
  cases u with
  | nil => exact absurd rfl hne
  | cons c u =>
    by_cases hc : isHexDigit c
    · rw [List.cons_append, escape_hexDigit hc] at h
      generalize hd : ((c :: (u ++ w)).take 6).takeWhile isHexDigit = digits at h
      generalize hs : splitBlank ((c :: (u ++ w)).drop digits.length) = result at h
      obtain ⟨blank, rest⟩ := result
      obtain ⟨rfl, rfl⟩ := Prod.mk.inj h
      dsimp only at *
      have hu : c :: u = digits ++ blank := (List.cons.inj htext).2.symm
      rw [← List.cons_append, hu, List.append_assoc] at hd hs
      rw [List.drop_left] at hs
      have hblank : splitBlank (blank ++ w') = (blank, w') := splitBlank_swap hs (hw.imp_right And.right)
      have hdigits : ((digits ++ (blank ++ w')).take 6).takeWhile isHexDigit = digits := by
        refine take_takeWhile_swap hd ?_
        cases blank with
        | nil => exact hw.imp_right fun hb => hb.1.class_eq_false fun _ => isHexDigit_goesOn
        | cons => exact .inl rfl
      have hall : c :: (u ++ w') = digits ++ (blank ++ w') := by rw [← List.cons_append, hu, List.append_assoc]
      rw [List.cons_append, escape_hexDigit hc, hall, hdigits, List.drop_left, hblank]
    · rw [List.cons_append, escape, if_neg hc] at h ⊢
      obtain ⟨rfl, hu⟩ := Prod.mk.inj h
      rw [List.append_left_eq_self.mp hu]
      rfl

/-! ### Rules -/

namespace PieceRule

theorem run_of_none (rule : PieceRule) {cs : List Char} (h : rule.next cs = none) : rule.run cs = ([], cs) := by
  rw [run]
  split
  · rfl
  · simp_all

theorem run_of_some (rule : PieceRule) {cs rest : List Char} (h : rule.next cs = some (piece, rest)) :
    rule.run cs = (piece :: (rule.run rest).1, (rule.run rest).2) := by
  rw [run]
  split
  · simp_all
  · rename_i h'
    rw [h, Option.some.injEq, Prod.mk.injEq] at h'
    obtain ⟨rfl, rfl⟩ := h'
    rfl

/-- Where the pieces end, the rule finds no more. -/
theorem next_run (rule : PieceRule) (cs : List Char) : rule.next (rule.run cs).2 = none := by
  fun_induction PieceRule.run rule cs with
  | case1 cs hn => exact hn
  | case2 cs piece rest hn _ pieces last hrun ih => rwa [hrun] at ih

/-- Pieces are the same in front of another text, if each of them is and no more are found there. -/
theorem run_swap (rule : PieceRule) {cs : List Char} {pieces : List Piece} (h : rule.run cs = (pieces, w))
    (hlast : rule.next w = none → rule.next w' = none)
    (hnext : ∀ piece ∈ pieces, ∀ v, rule.next (piece.text ++ (v ++ w)) = some (piece, v ++ w) →
      rule.next (piece.text ++ (v ++ w')) = some (piece, v ++ w')) :
    rule.run (Piece.texts pieces ++ w') = (pieces, w') := by
  fun_induction PieceRule.run rule cs generalizing pieces with
  | case1 cs hn =>
    obtain ⟨rfl, rfl⟩ := Prod.mk.inj h
    exact rule.run_of_none (hlast hn)
  | case2 cs piece rest hn _ more last hrun ih =>
    obtain ⟨rfl, rfl⟩ := Prod.mk.inj h
    rw [List.forall_mem_cons] at hnext
    have hrest : rest = Piece.texts more ++ last := by
      have happ := rule.run_append rest
      rw [hrun] at happ
      exact happ.symm
    have hcs : cs = piece.text ++ (Piece.texts more ++ last) := by
      rw [← hrest, (rule.next_append _ _ _ hn).1]
    rw [hcs, hrest] at hn
    have happ : Piece.texts (piece :: more) ++ w' = piece.text ++ (Piece.texts more ++ w') := by
      simp [Piece.texts]
    rw [happ, rule.run_of_some (hnext.1 _ hn), ih hrun hnext.2]

end PieceRule

theorem startsNewline_swap (hh : w.head? = w'.head?) (u : List Char) :
    startsNewline (u ++ w) = startsNewline (u ++ w') := by
  cases u with
  | nil => cases w <;> cases w' <;> simp_all [startsNewline]
  | cons => rfl

theorem nameRule_swap (h : nameRule.next (piece.text ++ w) = some (piece, w)) (hmore : w ≠ [])
    (hw : w.head? = w'.head? ∨ Barrier w' ∧ ('\\' ∈ piece.text → startsBlank w' = false)) :
    nameRule.next (piece.text ++ w') = some (piece, w') := by
  obtain ⟨c, u, hu⟩ := List.exists_cons_of_ne_nil (nameRule.next_append _ _ _ h).2
  rw [hu] at h hw ⊢
  simp only [nameRule, List.cons_append] at h ⊢
  split at h
  · rename_i hc
    obtain ⟨rfl, hrest⟩ := Prod.mk.inj (Option.some.inj h)
    rw [if_pos hc, List.append_left_eq_self.mp hrest]
    rfl
  split at h
  · rename_i hc hs
    replace h := Option.some.inj h
    obtain ⟨htext, hne⟩ := escape_text h hmore
    obtain ⟨rfl, -⟩ : c = '\\' ∧ u = u := by simpa [hu] using htext
    have hs' : startsEscape ('\\' :: (u ++ w')) = true := by
      cases u with
      | nil => exact absurd rfl hne
      | cons => exact hs
    rw [if_neg hc, if_pos hs', escape_swap h hmore (hw.imp_right fun hb => ⟨hb.1, hb.2 (by simp)⟩)]
  · cases h

theorem stringRule_swap {quote : Char} (h : (stringRule quote).next (piece.text ++ w) = some (piece, w)) (hmore : w ≠ [])
    (hw : w.head? = w'.head?) : (stringRule quote).next (piece.text ++ w') = some (piece, w') := by
  obtain ⟨c, u, hu⟩ := List.exists_cons_of_ne_nil ((stringRule quote).next_append _ _ _ h).2
  rw [hu] at h ⊢
  have hmore' : w' ≠ [] := by
    intro hn
    rw [hn, List.head?_nil, List.head?_eq_none_iff] at hw
    exact hmore hw
  have hempty : (u ++ w).isEmpty = false ∧ (u ++ w').isEmpty = false := by simp [hmore, hmore']
  simp only [stringRule, List.cons_append, hempty, Bool.false_eq_true, if_false, ← startsNewline_swap hw] at h ⊢
  split at h
  · cases h
  rename_i hc
  rw [if_neg hc]
  split at h
  · rename_i hb
    rw [if_pos hb]
    split at h
    · rename_i hn
      rw [if_pos hn]
      obtain ⟨rfl, hrest⟩ := Prod.mk.inj (Option.some.inj h)
      have hblank : splitBlank (u ++ w) = (u, w) := Prod.ext (List.cons.inj hu).2 hrest
      rw [splitBlank_swap hblank (.inl hw), hblank]
    · rename_i hn
      rw [if_neg hn, escape_swap (Option.some.inj h) hmore (.inl hw)]
  · rename_i hb
    rw [if_neg hb]
    obtain ⟨rfl, hrest⟩ := Prod.mk.inj (Option.some.inj h)
    rw [List.append_left_eq_self.mp hrest]
    rfl

theorem urlRule_swap (h : urlRule.next (piece.text ++ w) = some (piece, w)) (hmore : w ≠ []) (hw : w.head? = w'.head?) :
    urlRule.next (piece.text ++ w') = some (piece, w') := by
  obtain ⟨c, u, hu⟩ := List.exists_cons_of_ne_nil (urlRule.next_append _ _ _ h).2
  rw [hu] at h ⊢
  simp only [urlRule, List.cons_append, ← startsNewline_swap hw] at h ⊢
  split at h
  · cases h
  rename_i hc
  rw [if_neg hc]
  split at h
  · rename_i hb
    rw [if_pos hb]
    split at h
    · cases h
    · rename_i hn
      rw [if_neg hn, escape_swap (Option.some.inj h) hmore (.inl hw)]
  · rename_i hb
    rw [if_neg hb]
    obtain ⟨rfl, hrest⟩ := Prod.mk.inj (Option.some.inj h)
    rw [List.append_left_eq_self.mp hrest]
    rfl

theorem badUrlRule_swap (h : badUrlRule.next (piece.text ++ w) = some (piece, w)) (hw : w.head? = w'.head?) :
    badUrlRule.next (piece.text ++ w') = some (piece, w') := by
  -- A backslash alone is a piece where neither a parenthesis nor another backslash follows it.
  have hbreak : ∀ c d, (∀ rest, c = '\\' → w = d :: rest → False) → ∀ rest, c = '\\' → w' ≠ d :: rest := by
    intro c d hd rest hc hrest
    obtain ⟨more, hmore⟩ := List.head?_eq_some_iff.mp (hw.trans (by rw [hrest]; rfl) : w.head? = some d)
    exact hd more hc hmore
  generalize hcs : piece.text ++ w = cs at h
  simp only [badUrlRule] at h
  split at h
  · obtain ⟨rfl, rfl⟩ := Prod.mk.inj (Option.some.inj h)
    rfl
  · obtain ⟨rfl, rfl⟩ := Prod.mk.inj (Option.some.inj h)
    rfl
  · rename_i c cs hclose hslash
    split at h
    · cases h
    · rename_i hc
      obtain ⟨rfl, rfl⟩ := Prod.mk.inj (Option.some.inj h)
      show badUrlRule.next (c :: w') = some (⟨[c], []⟩, w')
      simp only [badUrlRule]
      split
      · rename_i cs' he
        obtain ⟨rfl, rfl⟩ := List.cons.inj he
        exact absurd rfl (hbreak _ _ hclose cs' rfl)
      · rename_i cs' he
        obtain ⟨rfl, rfl⟩ := List.cons.inj he
        exact absurd rfl (hbreak _ _ hslash cs' rfl)
      · rename_i he
        obtain ⟨rfl, rfl⟩ := List.cons.inj he
        rw [if_neg hc]
      · rename_i he
        cases he
  · cases h

/-! ### All pieces -/

theorem head?_append_swap (hh : w.head? = w'.head?) (v : List Char) : (v ++ w).head? = (v ++ w').head? := by
  cases v with
  | nil => exact hh
  | cons => rfl

theorem nameRule_next_eq_none_iff (cs : List Char) :
    nameRule.next cs = none ↔ (∀ c ∈ cs.head?, isNameChar c = false) ∧ startsEscape cs = false := by
  cases cs with
  | nil => simp [nameRule, startsEscape]
  | cons c cs => by_cases hc : isNameChar c <;> simp [nameRule, hc]

theorem forks_nameRule : Forks nameRule.run := by
  intro q q' p r pieces h hrun
  have hp : p = Piece.texts pieces ++ r := by
    have happ := nameRule.run_append (p ++ q)
    rw [hrun, ← List.append_assoc] at happ
    exact (List.append_cancel_right happ).symm
  subst hp
  rw [List.append_assoc]
  refine nameRule.run_swap hrun (fun hn => ?_) fun piece hmem v hnext => ?_
  · rw [nameRule_next_eq_none_iff, h.of_append.startsEscape_eq] at hn
    rw [nameRule_next_eq_none_iff]
    refine ⟨?_, hn.2⟩
    cases r with
    | nil => exact h.right.isNameChar_eq_false
    | cons => exact hn.1
  · refine nameRule_swap hnext (by simp [h.more]) ?_
    by_cases hvr : v = [] ∧ r = []
    · obtain ⟨rfl, rfl⟩ := hvr
      refine (h.next rfl).imp_right fun hq => ⟨h.right, fun hslash => hq.2 ?_⟩
      rw [List.append_nil]
      exact List.mem_flatMap.mpr ⟨piece, hmem, hslash⟩
    · left
      cases v with
      | nil =>
        cases r with
        | nil => exact absurd ⟨rfl, rfl⟩ hvr
        | cons => rfl
      | cons => rfl

variable {cs : List Char} {pieces : List Piece}

theorem stringRule_run_swap {quote : Char} (h : (stringRule quote).run cs = (pieces, w)) (hmore : w ≠ [])
    (hw : w.head? = w'.head?) : (stringRule quote).run (Piece.texts pieces ++ w') = (pieces, w') := by
  refine (stringRule quote).run_swap h (fun hn => ?_) fun piece _ v hnext =>
    stringRule_swap hnext (by simp [hmore]) (head?_append_swap hw v)
  obtain ⟨c, rest, rfl⟩ := List.exists_cons_of_ne_nil hmore
  obtain ⟨rest', rfl⟩ := List.head?_eq_some_iff.mp hw.symm
  simp only [stringRule] at hn ⊢
  split at hn
  · rename_i hc
    rw [if_pos hc]
  · split at hn
    · split at hn
      · cases hn
      · split at hn <;> cases hn
    · cases hn

theorem urlRule_run_swap {s x x' : List Char} (h : urlRule.run cs = (pieces, s ++ ')' :: x)) :
    urlRule.run (Piece.texts pieces ++ (s ++ ')' :: x')) = (pieces, s ++ ')' :: x') := by
  have hx : (')' :: x).head? = (')' :: x').head? := rfl
  refine urlRule.run_swap h (fun hn => ?_) fun piece _ v hnext =>
    urlRule_swap hnext (by simp) (head?_append_swap (head?_append_swap hx s) v)
  cases s with
  | nil => rfl
  | cons c s =>
    have hnewline : startsNewline (s ++ ')' :: x) = startsNewline (s ++ ')' :: x') := startsNewline_swap hx s
    simp only [urlRule, List.cons_append, ← hnewline] at hn ⊢
    split at hn
    · rename_i hc
      rw [if_pos hc]
    · rename_i hc
      rw [if_neg hc]
      split at hn
      · rename_i hb
        rw [if_pos hb]
        split at hn
        · rename_i hs
          rw [if_pos hs]
        · cases hn
      · cases hn

theorem badUrlRule_run_swap {x x' : List Char} (h : badUrlRule.run cs = (pieces, ')' :: x)) :
    badUrlRule.run (Piece.texts pieces ++ ')' :: x') = (pieces, ')' :: x') := by
  have hx : (')' :: x).head? = (')' :: x').head? := rfl
  exact badUrlRule.run_swap h (fun _ => rfl) fun piece _ v hnext => badUrlRule_swap hnext (head?_append_swap hx v)

end Timeline.Css
