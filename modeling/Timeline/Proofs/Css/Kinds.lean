import Timeline.Proofs.Css.Locality

/-! Which scanner reads which tokens.

Comments, at-keywords, blanks, marks and functions are each read in one place only (`scan_cases`), so each of
them shows in its text what it is. -/
namespace Timeline.Css

variable {t : Token}

/-! ### Words -/

/-- The kinds of all tokens that are neither blanks or comments, nor at-keywords, marks or functions. -/
def Kind.isWord : Kind → Bool
  | ident _ | hash _ _ | string _ | badString _ | url _ | badUrl | number | percentage | dimension _ => true
  | comparison _ | markupOpen | markupClose | delim _ => true
  | _ => false

theorem isWord_scanString (quote : Char) (cs : List Char) : (scanString quote cs).1.kind.isWord = true := by
  unfold scanString
  split
  split
  · rfl
  · split <;> rfl

theorem isWord_scanHash (cs : List Char) : (scanHash cs).1.kind.isWord = true := by
  unfold scanHash
  split
  · rfl
  · split <;> rfl

theorem isWord_scanNumeric (cs : List Char) : (scanNumeric cs).1.kind.isWord = true := by
  unfold scanNumeric
  split
  split
  · rfl
  · split <;> rfl

theorem isWord_scanUrl (start cs : List Char) : (scanUrl start cs).1.kind.isWord = true := by
  unfold scanUrl
  split
  split
  · rfl
  · split <;> rfl

theorem isWord_scanSingle (c : Char) (cs : List Char) :
    (scanSingle c cs).1.kind.isWord = true ∨ isSingle c = true := by
  by_cases h : isSingle c = true
  · exact .inr h
  · left
    simp only [isSingle, singles, List.contains_cons, List.contains_nil, Bool.or_eq_true, beq_iff_eq, not_or] at h
    simp only [scanSingle, h, if_false]
    rfl

/-- The kinds of blanks, marks and functions, which are over with their last character. -/
def Kind.isOver : Kind → Bool
  | blank | colon | semicolon | comma | opening _ | closing _ | function _ => true
  | _ => false

theorem Kind.isOver_of_isWord {kind : Kind} (h : kind.isWord = true) : kind.isOver = false := by
  cases kind <;> first | rfl | cases h

theorem isOver_scanSingle {c : Char} (h : isSingle c = true) (cs : List Char) : (scanSingle c cs).1.kind.isOver = true :=
  of_isSingle (k := fun c => (scanSingle c cs).1.kind.isOver) (by rfl) h

/-! ### All scanners -/

/-- What is read as a name: no scanner that comes before is the one. -/
structure IdentFront (c : Char) (cs : List Char) : Prop where
  blank : ¬ isBlank c = true
  quote : ¬ (c = '"' || c = '\'') = true
  hash : ¬ c = '#'
  comment : ¬ (c = '/' ∧ cs.head? = some '*')
  number : ¬ startsNumber (c :: cs) = true
  markup : ¬ (c = '-' ∧ cs.take 2 = ['-', '>'])
  ident : startsIdent (c :: cs) = true

/-- What may be read off the front of a text, and how. -/
inductive Scanned (c : Char) (cs : List Char) (r : Token × List Char) : Prop where
  | blank : isBlank c = true → r = scanBlank (c :: cs) → Scanned c cs r
  | comment {rest : List Char} : r = scanComment rest → Scanned c cs r
  | atKeyword {rest : List Char} : r = scanMarked '@' .atKeyword rest → Scanned c cs r
  | mark : isSingle c = true → r = scanSingle c cs → Scanned c cs r
  | function {name : String} : IdentFront c cs → r.1.kind = .function name → r = scanIdentLike (c :: cs) → Scanned c cs r
  | word : r.1.kind.isWord = true → Scanned c cs r

variable {c : Char} {cs : List Char}

theorem IdentFront.scan_eq (h : IdentFront c cs) : scan c cs = scanIdentLike (c :: cs) := by
  rw [scan, if_neg h.blank, if_neg h.quote, if_neg h.hash, if_neg h.comment, if_neg h.number, if_neg h.markup,
    if_pos h.ident]

/-- Whether a name is read does not depend on which way the text goes on behind it. -/
theorem IdentFront.fork {q q' p r : List Char} (h : Fork q q' (c :: p) r) (hi : IdentFront c (p ++ q)) :
    IdentFront c (p ++ q') := by
  have hmarkup : ∀ c ∈ ['-', '>'], goesOn c = true := List.all_eq_true.mp (by decide)
  obtain ⟨hblank, hquote, hhash, hcomment, hnumber, hdash, hident⟩ := hi
  rw [h.left.head?_append_iff (by decide)] at hcomment
  rw [← List.cons_append, h.left.startsNumber_append] at hnumber
  rw [take_markupClose, h.left.prefix_append_iff hmarkup] at hdash
  refine ⟨hblank, hquote, hhash, ?_, ?_, ?_, h.startsIdent_eq ▸ hident⟩
  · rwa [h.right.head?_append_iff (by decide)]
  · rwa [← List.cons_append, h.right.startsNumber_append]
  · rwa [take_markupClose, h.right.prefix_append_iff hmarkup]

theorem scanned_scanIdentLike (hi : IdentFront c cs) : Scanned c cs (scanIdentLike (c :: cs)) := by
  cases hk : (scanIdentLike (c :: cs)).1.kind.isWord with
  | true => exact .word hk
  | false =>
    refine .function hi (?_ : _ = Kind.function (Piece.values (nameRule.run (c :: cs)).1)) rfl
    generalize hrun : nameRule.run (c :: cs) = result
    obtain ⟨pieces, rest⟩ := result
    rw [scanIdentLike_eq hrun] at hk ⊢
    split at hk
    · rename_i hopen
      rw [if_pos hopen]
      split at hk
      · rw [isWord_scanUrl] at hk
        cases hk
      · rename_i hurl
        rw [if_neg hurl]
    · cases hk

theorem scanned_scanPunctuation (c : Char) (cs : List Char) : Scanned c cs (scanPunctuation c cs) := by
  rw [scanPunctuation_eq]
  split
  · exact .word rfl
  split
  · exact .word rfl
  · exact (isWord_scanSingle c cs).elim .word fun hs => .mark hs rfl

theorem scan_cases (c : Char) (cs : List Char) : Scanned c cs (scan c cs) := by
  unfold scan
  split
  · rename_i hc
    exact .blank hc rfl
  split
  · exact .word (isWord_scanString c cs)
  split
  · exact .word (isWord_scanHash cs)
  split
  · exact .comment rfl
  split
  · exact .word (isWord_scanNumeric _)
  split
  · exact .word rfl
  split
  · rename_i hblank hquote hhash hcomment hnumber hmarkup hident
    exact scanned_scanIdentLike ⟨hblank, hquote, hhash, hcomment, hnumber, hmarkup, hident⟩
  split
  · exact .atKeyword rfl
  · exact scanned_scanPunctuation c cs

theorem scan_of_isOver (h : (scan c cs).1.kind.isOver = true) :
    (isBlank c = true ∧ scan c cs = scanBlank (c :: cs)) ∨ (isSingle c = true ∧ scan c cs = scanSingle c cs) ∨
      IdentFront c cs ∧ ∃ name, (scan c cs).1.kind = .function name := by
  cases scan_cases c cs with
  | blank hc hr => exact .inl ⟨hc, hr⟩
  | mark hc hr => exact .inr (.inl ⟨hc, hr⟩)
  | function hi hk => exact .inr (.inr ⟨hi, _, hk⟩)
  | comment hr | atKeyword hr =>
    rw [hr] at h
    cases h
  | word hw =>
    rw [Kind.isOver_of_isWord hw] at h
    cases h

/-- Only a slash and a star begin a comment, and only an at-sign an at-keyword. -/
theorem scan_of_not_isOver (ho : (scan c cs).1.kind.isOver = false) (hw : (scan c cs).1.kind.isWord = false) :
    (∃ rest, scan c cs = scanComment rest) ∨ ∃ rest, scan c cs = scanMarked '@' .atKeyword rest := by
  cases scan_cases c cs with
  | comment hr => exact .inl ⟨_, hr⟩
  | atKeyword hr => exact .inr ⟨_, hr⟩
  | blank _ hr =>
    rw [hr] at ho
    cases ho
  | mark hc hr =>
    rw [hr, isOver_scanSingle hc] at ho
    cases ho
  | function _ hk =>
    rw [hk] at ho
    cases ho
  | word hk =>
    rw [hk] at hw
    cases hw

/-! ### What tokens show -/

/-- What holds of every token that is read holds of all tokens of a text. -/
theorem forall_mem_lex {motive : Token → Prop} (h : ∀ c cs, motive (scan c cs).1) (cs : List Char) :
    ∀ t ∈ lex cs, motive t := by
  fun_induction lex cs with
  | case1 => simp
  | case2 c cs ih => exact List.forall_mem_cons.mpr ⟨h c cs, ih⟩

theorem text_ne_nil {cs : List Char} : ∀ t ∈ lex cs, t.text ≠ [] :=
  forall_mem_lex (fun c cs => (scan_cuts c cs).2) cs

/-- An at-keyword has its sign. -/
theorem at_mem_of_mem_lex {cs : List Char} : ∀ t ∈ lex cs, ∀ name, t.kind = .atKeyword name → '@' ∈ t.text := by
  refine forall_mem_lex (fun c cs name hk => ?_) cs
  rcases scan_of_not_isOver (by rw [hk]; rfl) (by rw [hk]; rfl) with ⟨rest, hr⟩ | ⟨rest, hr⟩
  · rw [hr] at hk
    cases hk
  · rw [hr]
    exact List.mem_cons_self

/-- A comment has the slash that it begins with. -/
theorem slash_of_mem_lex {cs : List Char} : ∀ t ∈ lex cs, t.kind.isComment = true → ∃ u, t.text = '/' :: u := by
  refine forall_mem_lex (fun c cs hc => ?_) cs
  cases hk : (scan c cs).1.kind with
  | comment closed =>
    rcases scan_of_not_isOver (by rw [hk]; rfl) (by rw [hk]; rfl) with ⟨rest, hr⟩ | ⟨rest, hr⟩
    · rw [hr]
      exact ⟨_, rfl⟩
    · rw [hr] at hk
      cases hk
  | _ =>
    rw [hk] at hc
    cases hc

theorem scan_kind_ne_blank {c : Char} (hc : isBlank c = false) (cs : List Char) : (scan c cs).1.kind ≠ .blank := by
  intro hk
  rcases scan_of_isOver (by rw [hk]; rfl) with ⟨hb, -⟩ | ⟨hm, hr⟩ | ⟨-, name, hf⟩
  · rw [hc] at hb
    cases hb
  · have hne := of_isSingle (k := fun c => (scanSingle c cs).1.kind ≠ .blank) (by rfl) hm
    rw [hr] at hk
    simp [hk] at hne
  · rw [hk] at hf
    cases hf

/-- Only blanks begin with a blank, and they are made of nothing else. -/
theorem blank_of_mem_lex {cs : List Char} : ∀ t ∈ lex cs,
    (startsBlank t.text = true ↔ t.kind = .blank) ∧ (t.kind = .blank → ∀ c ∈ t.text, isBlank c = true) := by
  refine forall_mem_lex (fun c cs => ?_) cs
  obtain ⟨hcut, hne⟩ := scan_cuts c cs
  obtain ⟨d, u, hu⟩ := List.exists_cons_of_ne_nil hne
  rw [hu] at hcut
  obtain ⟨rfl, -⟩ := List.cons.inj hcut
  have hstart : startsBlank (scan d cs).1.text = isBlank d := by rw [hu]; rfl
  rw [hstart]
  cases hd : isBlank d with
  | true =>
    rw [scan, if_pos hd]
    exact ⟨iff_of_true rfl rfl, fun _ => List.all_eq_true.mp List.all_takeWhile⟩
  | false => exact ⟨iff_of_false (by simp) (scan_kind_ne_blank hd cs), fun hk => absurd hk (scan_kind_ne_blank hd cs)⟩

/-- Behind a blank stands no other one. -/
theorem startsBlank_of_lex {x : List Char} {ts : List Token} (h : lex (t.text ++ x) = t :: ts) (hk : t.kind = .blank) :
    startsBlank x = false := by
  obtain ⟨c, u, y, hu, hy, hs, -⟩ := lex_eq_cons h
  obtain rfl := List.append_cancel_left hy
  have hc : isBlank c = true := by
    cases hc : isBlank c with
    | true => rfl
    | false => exact absurd (by rw [hs]; exact hk) (scan_kind_ne_blank hc (u ++ x))
  rw [scan, if_pos hc] at hs
  rw [← (Prod.mk.inj hs).2]
  exact startsBlank_dropWhile _

/-! ### Tokens that are over -/

/-- Neither does a blank go on with what stands before it. -/
theorem ways_blank {c : Char} (hc : isBlank c = true) (x y : List Char) : Ways (c :: '/' :: x) (c :: y) := by
  have hbarrier := goesOn_eq_false_of_isBlank hc
  have hslash : isBlank '/' = false := by decide
  exact ⟨by simp, .cons hbarrier _, .cons hbarrier y, by simp [hc, hslash]⟩

/-- A function in front of a comment: its name, as what stands behind the name has it. It is none for addresses. -/
theorem function_of_scan {c : Char} {u x : List Char} {name : String} (hi : IdentFront c (u ++ '/' :: x))
    (hs : scan c (u ++ '/' :: x) = (t, '/' :: x)) (hk : t.kind = .function name) :
    ∃ p pieces, u = p ++ ['('] ∧ nameRule.run (c :: (p ++ '(' :: '/' :: x)) = (pieces, '(' :: '/' :: x) ∧
      t = ⟨.function (Piece.values pieces), Piece.texts pieces ++ ['(']⟩ ∧ isUrlName (Piece.values pieces) = false := by
  have hcut := (scan_cuts c (u ++ '/' :: x)).1
  rw [hs, ← List.cons_append] at hcut
  replace hcut : t.text = c :: u := List.append_cancel_right hcut
  have hne := nameRule_run_ne_nil (.inl hi.ident)
  rw [hi.scan_eq] at hs
  generalize hrun : nameRule.run (c :: (u ++ '/' :: x)) = result at hne
  obtain ⟨pieces, rest⟩ := result
  rw [scanIdentLike_eq hrun] at hs
  split at hs
  · rename_i hopen
    obtain ⟨more, rfl⟩ := List.head?_eq_some_iff.mp hopen
    split at hs
    · have hword := isWord_scanUrl (Piece.texts pieces ++ ['(']) more
      rw [show scanUrl (Piece.texts pieces ++ ['(']) more = _ from hs, hk] at hword
      cases hword
    · rename_i hurl
      obtain ⟨rfl, hmore⟩ := Prod.mk.inj hs
      obtain rfl : more = '/' :: x := hmore
      obtain ⟨d, p, hp⟩ := List.exists_cons_of_ne_nil hne
      dsimp only at hp hcut
      rw [hp] at hcut
      obtain ⟨rfl, rfl⟩ := List.cons.inj hcut
      refine ⟨p, pieces, rfl, by simpa using hrun, rfl, ?_⟩
      cases hname : isUrlName (Piece.values pieces) with
      | false => rfl
      | true =>
        have hslash : isBlank '/' = false := by decide
        exact absurd (by simp [hname, hslash]) hurl
  · obtain ⟨rfl, -⟩ := Prod.mk.inj hs
    cases hk

/-- A token that is over stays the same, whatever stands behind it instead of a comment. -/
theorem over_of_lex {x : List Char} {ts : List Token} (h : lex (t.text ++ '/' :: x) = t :: ts) (hk : t.kind.isOver = true) :
    ∃ v m, t.text = v ++ [m] ∧ ∀ y, Ways (m :: '/' :: x) (m :: y) ∧
      ((t.kind = .blank → startsBlank y = false) → lex (t.text ++ y) = t :: lex y) := by
  obtain ⟨c, u, w, hu, hw, hs, -⟩ := lex_eq_cons h
  obtain rfl := List.append_cancel_left hw
  rcases scan_of_isOver (by rw [hs]; exact hk) with ⟨hc, hr⟩ | ⟨hc, hr⟩ | ⟨hi, name, hf⟩
  · rw [hr] at hs
    have hall := List.all_eq_true.mp (List.all_takeWhile (p := isBlank) (l := c :: (u ++ '/' :: x)))
    obtain ⟨rfl, -⟩ := Prod.mk.inj hs
    have hne : (c :: (u ++ '/' :: x)).takeWhile isBlank ≠ [] := by
      intro hn
      rw [show (c :: (u ++ '/' :: x)).takeWhile isBlank = _ from hu] at hn
      cases hn
    generalize (c :: (u ++ '/' :: x)).takeWhile isBlank = blanks at hall hne ⊢
    refine ⟨blanks.dropLast, blanks.getLast hne, (List.dropLast_concat_getLast hne).symm, fun y => ⟨?_, fun hy => ?_⟩⟩
    · exact ways_blank (hall _ (List.getLast_mem hne)) x y
    · exact lex_blanks hall hne (startsBlank_eq_false_iff.mp (hy rfl))
  · rw [hr] at hs
    obtain ⟨rfl, -⟩ := Prod.mk.inj hs
    exact ⟨[], c, rfl, fun y => ⟨ways_single hc _ y, fun _ => lex_single hc y⟩⟩
  · obtain ⟨p, pieces, rfl, hrun, rfl, hname⟩ := function_of_scan hi hs (by rw [← hf, hs])
    have hways : ∀ y, Ways ('(' :: '/' :: x) ('(' :: y) := ways_single (by decide) _
    refine ⟨Piece.texts pieces, '(', rfl, fun y => ⟨hways y, fun _ => ?_⟩⟩
    have hfork : Fork ('(' :: '/' :: x) ('(' :: y) (c :: p) [] :=
      { hways y with newline := fun _ => rfl, next := fun _ => .inl rfl }
    rw [List.append_assoc] at hi
    have hscan := (hi.fork hfork).scan_eq
    have hrun' : nameRule.run (c :: (p ++ '(' :: y)) = (pieces, '(' :: y) := forks_nameRule hfork hrun
    rw [scanIdentLike_eq hrun', List.head?_cons, if_pos rfl, if_neg (by simp [hname]), List.tail_cons] at hscan
    rw [hu, List.cons_append, List.append_assoc, List.singleton_append, lex, hscan]

end Timeline.Css
