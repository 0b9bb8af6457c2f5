import Timeline.Proofs.Css.Pieces

/-! What a token depends on.

A scanner looks a few characters past its token at most, and no further than the barrier behind it. So
where a text goes on in another way from some barrier on, all tokens up to there stay the same
(`Fronts.fork`). In particular the tokens of a text whose last token is a mark of its own, such as a bracket,
stay the same whatever follows it (`lex_append`). -/
namespace Timeline.Css

open Text (isDigit isNewline startsDigit splitSign)

variable {q q' p r w w' : List Char} {t : Token}

/-- A choice between outcomes that are each kept. -/
theorem ite_imp_ite {α : Type} {condition : Prop} [Decidable condition] {x y x' y' a b : α}
    (hx : condition → x = a → x' = b) (hy : ¬ condition → y = a → y' = b) :
    (if condition then x else y) = a → (if condition then x' else y') = b := by
  split
  · rename_i hc
    exact hx hc
  · rename_i hc
    exact hy hc

/-! ### Comments, blanks and strings -/

theorem eq_nil_of_splitComment {cs : List Char} (h : (splitComment cs).1 = []) : cs = [] := by
  fun_cases splitComment cs with
  | case1 => cases h
  | case2 c cs hc words closed rest he =>
    rw [splitComment.eq_2 c cs hc, he] at h
    cases h
  | case3 => rfl

theorem splitComment_swap {cs text : List Char} {closed : Bool} (h : splitComment cs = (text, closed, w)) (hmore : w ≠ [])
    (w' : List Char) : splitComment (text ++ w') = (text, closed, w') := by
  fun_induction splitComment cs generalizing text with
  | case1 rest =>
    obtain ⟨rfl, rest⟩ := Prod.mk.inj h
    obtain ⟨rfl, -⟩ := Prod.mk.inj rest
    rfl
  | case2 c cs hc words closed' rest he ih =>
    obtain ⟨rfl, hrest⟩ := Prod.mk.inj h
    obtain ⟨rfl, rfl⟩ := Prod.mk.inj hrest
    have happ := splitComment_append cs
    rw [he] at happ
    dsimp only at happ
    rw [List.cons_append, splitComment.eq_2, ih he]
    intro more hstar hmark
    cases words with
    | nil =>
      have hnil : (splitComment cs).1 = [] := by rw [he]
      obtain rfl := eq_nil_of_splitComment hnil
      exact hmore happ
    | cons d words =>
      obtain ⟨rfl, -⟩ := List.cons.inj hmark
      exact hc (words ++ rest) hstar happ.symm
  | case3 =>
    obtain ⟨-, hrest⟩ := Prod.mk.inj h
    exact absurd (Prod.mk.inj hrest).2.symm hmore

theorem forks_scanComment : Forks scanComment := by
  intro q q' p r a h hs
  have happ := splitComment_append (p ++ q)
  unfold scanComment at hs ⊢
  generalize hsplit : splitComment (p ++ q) = result at hs happ
  obtain ⟨text, closed, rest⟩ := result
  obtain ⟨rfl, rfl⟩ := Prod.mk.inj hs
  dsimp only at happ
  rw [← List.append_assoc] at happ
  obtain rfl := List.append_cancel_right happ
  rw [List.append_assoc, splitComment_swap hsplit (by simp [h.more])]

theorem span_blanks {blanks x : List Char} (hb : ∀ c ∈ blanks, isBlank c = true) (hx : startsBlank x = false) :
    (blanks ++ x).takeWhile isBlank = blanks ∧ (blanks ++ x).dropWhile isBlank = x := by
  rw [List.takeWhile_append_of_pos hb, List.dropWhile_append_of_pos hb]
  cases x with
  | nil => simp
  | cons c x =>
    have hc : isBlank c = false := hx
    simp [hc]

theorem startsBlank_dropWhile (cs : List Char) : startsBlank (cs.dropWhile isBlank) = false := by
  have hhead := List.head?_dropWhile_not isBlank cs
  cases h : cs.dropWhile isBlank with
  | nil => rfl
  | cons c rest =>
    rw [h] at hhead
    simpa [startsBlank] using hhead

theorem scanBlank_eq {blanks x : List Char} (hb : ∀ c ∈ blanks, isBlank c = true) (hx : startsBlank x = false) :
    scanBlank (blanks ++ x) = (⟨.blank, blanks⟩, x) := by
  rw [scanBlank, (span_blanks hb hx).1, (span_blanks hb hx).2]

theorem scanBlank_fork (hq : r = [] → q.head? = q'.head? ∨ startsBlank q' = false) (hs : scanBlank (p ++ q) = (t, r ++ q)) :
    scanBlank (p ++ q') = (t, r ++ q') := by
  obtain ⟨rfl, hrest⟩ := Prod.mk.inj hs
  have happ : (p ++ q).takeWhile isBlank ++ (p ++ q).dropWhile isBlank = p ++ q := List.takeWhile_append_dropWhile
  have hall := List.all_eq_true.mp (List.all_takeWhile (p := isBlank) (l := p ++ q))
  have hhead := startsBlank_dropWhile (p ++ q)
  generalize (p ++ q).takeWhile isBlank = blanks at happ hall ⊢
  rw [hrest] at happ hhead
  rw [← List.append_assoc] at happ
  obtain rfl := List.append_cancel_right happ
  rw [List.append_assoc]
  refine scanBlank_eq hall ?_
  cases r with
  | nil =>
    refine (hq rfl).elim (fun hq => ?_) id
    rw [List.nil_append] at hhead ⊢
    rwa [startsBlank, ← hq]
  | cons c r => exact hhead

theorem isNewline_of_stringRule {quote c : Char} {more : List Char} (h : (stringRule quote).next (c :: more) = none)
    (hc : c ≠ quote) : isNewline c = true := by
  simp only [stringRule] at h
  split at h
  · simp_all
  split at h
  · split at h
    · cases h
    · split at h <;> cases h
  · cases h

/-- A string that the end of its line cut short. -/
def Kind.isBadString : Kind → Bool
  | badString _ => true
  | _ => false

/-- A string cut short has its newline right behind it. -/
theorem scanString_fork {quote : Char} (hmore : q ≠ [])
    (hbad : t.kind.isBadString = true → r = [] → startsNewline q = true → q.head? = q'.head?)
    (hs : scanString quote (p ++ q) = (t, r ++ q)) : scanString quote (p ++ q') = (t, r ++ q') := by
  have happ := (stringRule quote).run_append (p ++ q)
  have hlast := (stringRule quote).next_run (p ++ q)
  unfold scanString at hs ⊢
  generalize hrun : (stringRule quote).run (p ++ q) = result at hs happ hlast
  obtain ⟨pieces, rest⟩ := result
  dsimp only at hs happ hlast
  cases rest with
  | nil =>
    obtain ⟨-, hr⟩ := Prod.mk.inj hs
    exact absurd (List.append_eq_nil_iff.mp hr.symm).2 hmore
  | cons c more =>
    dsimp only at hs
    split at hs
    · rename_i hc
      obtain ⟨rfl, rfl⟩ := Prod.mk.inj hs
      rw [← List.cons_append, ← List.append_assoc] at happ
      obtain rfl := List.append_cancel_right happ
      have hrun' : (stringRule quote).run (Piece.texts pieces ++ c :: (r ++ q')) = (pieces, c :: (r ++ q')) :=
        stringRule_run_swap hrun (by simp) rfl
      rw [List.append_assoc, List.cons_append, hrun']
      dsimp only
      rw [if_pos hc]
    · rename_i hc
      obtain ⟨rfl, hr⟩ := Prod.mk.inj hs
      have hhead : (r ++ q).head? = (r ++ q').head? := by
        cases r with
        | nil =>
          refine hbad rfl rfl ?_
          rw [← show c :: more = q from hr]
          exact isNewline_of_stringRule hlast hc
        | cons => rfl
      rw [hr, ← List.append_assoc] at happ
      obtain rfl := List.append_cancel_right happ
      rw [hr] at hrun
      have hrun' : (stringRule quote).run (Piece.texts pieces ++ (r ++ q')) = (pieces, r ++ q') :=
        stringRule_run_swap hrun (by simp [hmore]) hhead
      have hcons : (r ++ q').head? = some c := by rw [← hhead, ← hr]; rfl
      obtain ⟨more', hmore'⟩ := List.head?_eq_some_iff.mp hcons
      rw [List.append_assoc, hrun', hmore']
      dsimp only
      rw [if_neg hc]

/-! ### Names and numbers -/

theorem forks_scanMarked (mark : Char) (kind : String → Kind) : Forks (scanMarked mark kind) := by
  intro q q' p r a h hs
  unfold scanMarked at hs ⊢
  generalize hrun : nameRule.run (p ++ q) = result at hs
  obtain ⟨pieces, rest⟩ := result
  obtain ⟨rfl, rfl⟩ := Prod.mk.inj hs
  rw [forks_nameRule h hrun]

theorem scanNumeric_eq {cs number rest : List Char} (h : splitNumber cs = (number, rest)) :
    scanNumeric cs =
      if rest.head? = some '%' then (⟨.percentage, number ++ ['%']⟩, rest.tail)
      else if startsIdent rest then
        (⟨.dimension (Piece.values (nameRule.run rest).1), number ++ Piece.texts (nameRule.run rest).1⟩,
          (nameRule.run rest).2)
      else (⟨.number, number⟩, rest) := by
  rw [scanNumeric, h]
  dsimp only
  split
  · rfl
  · rename_i hp
    have hhead : rest.head? ≠ some '%' := by
      intro hhead
      obtain ⟨more, rfl⟩ := List.head?_eq_some_iff.mp hhead
      exact hp more rfl
    rw [if_neg hhead]

theorem forks_scanNumeric : Forks scanNumeric := by
  intro q q' p r a h hs
  have happ := splitNumber_append p
  have hq : splitNumber (p ++ q) = ((splitNumber p).1, (splitNumber p).2 ++ q) := shielded_splitNumber p h.left
  have hq' : splitNumber (p ++ q') = ((splitNumber p).1, (splitNumber p).2 ++ q') := shielded_splitNumber p h.right
  rw [scanNumeric_eq hq] at hs
  rw [scanNumeric_eq hq']
  generalize (splitNumber p).1 = number, (splitNumber p).2 = unit at *
  subst happ
  replace h : Fork q q' unit r := h.of_append
  simp only [h.left.head?_append_iff (c := '%') (by decide), h.right.head?_append_iff (c := '%') (by decide),
    ← h.startsIdent_eq] at hs ⊢
  revert hs
  refine ite_imp_ite (fun hpercent hs => ?_) fun _ => ite_imp_ite (fun _ hs => ?_) fun _ hs => ?_
  · obtain ⟨rest, rfl⟩ := List.head?_eq_some_iff.mp hpercent
    obtain ⟨rfl, hr⟩ := Prod.mk.inj hs
    rw [← List.append_cancel_right (show rest ++ q = r ++ q from hr)]
    rfl
  · obtain ⟨rfl, hr⟩ := Prod.mk.inj hs
    rw [forks_nameRule h (Prod.ext rfl hr)]
  · obtain ⟨rfl, hr⟩ := Prod.mk.inj hs
    rw [List.append_cancel_right hr]

/-! ### Addresses and functions -/

theorem scanIdentLike_eq {cs rest : List Char} {pieces : List Piece} (h : nameRule.run cs = (pieces, rest)) :
    scanIdentLike cs =
      if rest.head? = some '(' then
        if isUrlName (Piece.values pieces) && (rest.tail.dropWhile isBlank).head? ≠ some '"' &&
            (rest.tail.dropWhile isBlank).head? ≠ some '\'' then
          scanUrl (Piece.texts pieces ++ ['(']) rest.tail
        else (⟨.function (Piece.values pieces), Piece.texts pieces ++ ['(']⟩, rest.tail)
      else (⟨.ident (Piece.values pieces), Piece.texts pieces⟩, rest) := by
  rw [scanIdentLike, h]
  dsimp only
  split
  · rfl
  · rename_i hp
    have hhead : rest.head? ≠ some '(' := by
      intro hhead
      obtain ⟨more, rfl⟩ := List.head?_eq_some_iff.mp hhead
      exact hp more rfl
    rw [if_neg hhead]

/-- A bad address ends with a closing parenthesis or with the text. -/
theorem badUrlRule_run_rest (cs : List Char) :
    (badUrlRule.run cs).2 = [] ∨ ∃ more, (badUrlRule.run cs).2 = ')' :: more := by
  have hn := badUrlRule.next_run cs
  generalize (badUrlRule.run cs).2 = rest at hn
  simp only [badUrlRule] at hn
  split at hn
  · cases hn
  · cases hn
  · split at hn
    · subst_vars
      exact .inr ⟨_, rfl⟩
    · cases hn
  · exact .inl rfl

/-- The parts of an address: the blanks at its start, its words, the blanks behind them, and what comes then. -/
structure Address (blanks : List Char) (pieces : List Piece) (gap ending : List Char) : Prop where
  blanks : ∀ d ∈ blanks, isBlank d = true
  words : startsBlank (Piece.texts pieces ++ (gap ++ ending)) = false
  run : urlRule.run (Piece.texts pieces ++ (gap ++ ending)) = (pieces, gap ++ ending)
  gap : ∀ d ∈ gap, isBlank d = true
  ending : startsBlank ending = false

theorem exists_address (cs : List Char) :
    ∃ blanks pieces gap ending, cs = blanks ++ (Piece.texts pieces ++ (gap ++ ending)) ∧ Address blanks pieces gap ending := by
  have hall : cs.takeWhile isBlank ++ cs.dropWhile isBlank = cs := List.takeWhile_append_dropWhile
  have hb := List.all_eq_true.mp (List.all_takeWhile (p := isBlank) (l := cs))
  have hx := startsBlank_dropWhile cs
  have happ := urlRule.run_append (cs.dropWhile isBlank)
  generalize cs.takeWhile isBlank = blanks, cs.dropWhile isBlank = front at *
  generalize hrun : urlRule.run front = result at happ
  obtain ⟨pieces, rest⟩ := result
  have hgap : rest.takeWhile isBlank ++ rest.dropWhile isBlank = rest := List.takeWhile_append_dropWhile
  have hg := List.all_eq_true.mp (List.all_takeWhile (p := isBlank) (l := rest))
  have hending := startsBlank_dropWhile rest
  generalize rest.takeWhile isBlank = gap, rest.dropWhile isBlank = ending at *
  dsimp only at happ
  subst hgap happ hall
  exact ⟨blanks, pieces, gap, ending, rfl, ⟨hb, hx, hrun, hg, hending⟩⟩

namespace Address

variable {blanks gap : List Char} {pieces : List Piece}

theorem scanUrl_nil (h : Address blanks pieces gap []) (start : List Char) :
    (scanUrl start (blanks ++ (Piece.texts pieces ++ (gap ++ [])))).2 = [] := by
  unfold scanUrl
  rw [(span_blanks h.blanks h.words).2, h.run]
  dsimp only
  rw [(span_blanks h.gap h.ending).2]

theorem scanUrl_cons {c : Char} {more : List Char} (h : Address blanks pieces gap (c :: more)) (start : List Char) :
    scanUrl start (blanks ++ (Piece.texts pieces ++ (gap ++ c :: more))) =
      if c = ')' then
        (⟨.url (Piece.values pieces), start ++ blanks ++ Piece.texts pieces ++ gap ++ [')']⟩, more)
      else
        (⟨.badUrl, start ++ blanks ++ Piece.texts pieces ++ gap ++ [c] ++ Piece.texts (badUrlRule.run more).1 ++
          (badUrlRule.run more).2.take 1⟩, (badUrlRule.run more).2.drop 1) := by
  unfold scanUrl
  rw [(span_blanks h.blanks h.words).1, (span_blanks h.blanks h.words).2, h.run]
  dsimp only
  rw [(span_blanks h.gap h.ending).1, (span_blanks h.gap h.ending).2]

/-- What stands behind a closing parenthesis is no part of an address. -/
theorem swap {s x : List Char} (h : Address blanks pieces gap (s ++ ')' :: x)) (x' : List Char) :
    Address blanks pieces gap (s ++ ')' :: x') := by
  have hhead : ∀ v, (v ++ ')' :: x).head? = (v ++ ')' :: x').head? := head?_append_swap rfl
  have hsplit : ∀ y, gap ++ (s ++ ')' :: y) = (gap ++ s) ++ ')' :: y := fun y => (List.append_assoc ..).symm
  obtain ⟨hblanks, hwords, hrun, hgap, hending⟩ := h
  rw [hsplit] at hwords hrun
  refine ⟨hblanks, ?_, ?_, hgap, ?_⟩
  · rw [hsplit, startsBlank, ← List.append_assoc, ← hhead, List.append_assoc]
    exact hwords
  · rw [hsplit]
    exact urlRule_run_swap hrun
  · rw [startsBlank, ← hhead]
    exact hending

end Address

/-- An address ends with its closing parenthesis, so nothing behind that counts. -/
theorem scanUrl_swap {start cs : List Char} (hs : scanUrl start cs = (t, w)) (hmore : w ≠ []) :
    ∃ words, cs = words ++ ')' :: w ∧ ∀ w', scanUrl start (words ++ ')' :: w') = (t, w') := by
  obtain ⟨blanks, pieces, gap, ending, rfl, h⟩ := exists_address cs
  cases ending with
  | nil =>
    have hnil := h.scanUrl_nil start
    rw [hs] at hnil
    exact absurd hnil hmore
  | cons c more =>
    rw [h.scanUrl_cons start] at hs
    split at hs
    · rename_i hc
      subst hc
      obtain ⟨rfl, rfl⟩ := Prod.mk.inj hs
      refine ⟨blanks ++ (Piece.texts pieces ++ gap), by simp, fun w' => ?_⟩
      have heq := (h.swap (s := []) w').scanUrl_cons start
      rw [if_pos rfl] at heq
      simpa using heq
    · rename_i hc
      obtain ⟨rfl, hlast⟩ := Prod.mk.inj hs
      have hjunk := badUrlRule.run_append more
      generalize hbad : badUrlRule.run more = result at hlast hjunk ⊢
      obtain ⟨junk, last⟩ := result
      obtain rfl : last = ')' :: w := by
        have hrest := badUrlRule_run_rest more
        rw [hbad] at hrest
        rcases hrest with rfl | ⟨more', rfl⟩
        · exact absurd hlast.symm hmore
        · exact congrArg (')' :: ·) hlast
      dsimp only at hjunk ⊢
      subst hjunk
      refine ⟨blanks ++ (Piece.texts pieces ++ (gap ++ c :: Piece.texts junk)), by simp, fun w' => ?_⟩
      have hswap : Address blanks pieces gap (c :: (Piece.texts junk ++ ')' :: w')) :=
        h.swap (s := c :: Piece.texts junk) w'
      have heq := hswap.scanUrl_cons start
      rw [if_neg hc, badUrlRule_run_swap hbad] at heq
      simpa using heq

theorem head?_dropWhile_swap {s : List Char} {c : Char} (hc : isBlank c = false) (x x' : List Char) :
    ((s ++ c :: x).dropWhile isBlank).head? = ((s ++ c :: x').dropWhile isBlank).head? := by
  induction s with
  | nil => simp [hc]
  | cons d s ih =>
    rw [List.cons_append, List.cons_append, List.dropWhile_cons, List.dropWhile_cons]
    split
    · exact ih
    · rfl

/-- The quote of a function for addresses stands in what both ways share. -/
theorem Fork.quote (h : Fork q q' p r) {c : Char} (hc : c = '"' ∨ c = '\'')
    (hq : ((r ++ q).dropWhile isBlank).head? = some c) : ((r ++ q').dropWhile isBlank).head? = some c := by
  have hunquoted := h.unquoted
  clear h
  induction r with
  | nil =>
    obtain ⟨hdouble, hsingle⟩ := hunquoted c hq
    rcases hc with rfl | rfl
    · exact absurd rfl hdouble
    · exact absurd rfl hsingle
  | cons d r ih =>
    rw [List.cons_append, List.dropWhile_cons] at hq ⊢
    split
    · rename_i hd
      rw [if_pos hd] at hq
      exact ih hq
    · rename_i hd
      rw [if_neg hd] at hq
      exact hq

theorem forks_scanIdentLike : Forks scanIdentLike := by
  intro q q' p r t h hs
  generalize hrun : nameRule.run (p ++ q) = result
  obtain ⟨pieces, rest⟩ := result
  rw [scanIdentLike_eq hrun] at hs
  split at hs
  · rename_i hopen
    obtain ⟨more, rfl⟩ := List.head?_eq_some_iff.mp hopen
    rw [List.tail_cons] at hs
    split at hs
    · rename_i hurl
      obtain ⟨words, rfl, hswap⟩ := scanUrl_swap hs (by simp [h.more])
      have hsplit : ∀ x, '(' :: (words ++ ')' :: (r ++ x)) = (('(' :: (words ++ [')'])) ++ r) ++ x := by simp
      rw [hsplit] at hrun
      rw [scanIdentLike_eq (forks_nameRule h.left_over hrun), ← hsplit, List.head?_cons, if_pos rfl,
        List.tail_cons, ← head?_dropWhile_swap rfl (r ++ q), if_pos hurl, hswap]
    · rename_i hurl
      obtain ⟨rfl, rfl⟩ := Prod.mk.inj hs
      have hleft : Fork q q' p ('(' :: r) := h.left_over (u := ['('])
      rw [scanIdentLike_eq (forks_nameRule hleft hrun), List.cons_append, List.head?_cons, if_pos rfl,
        List.tail_cons, if_neg]
      intro hurl'
      apply hurl
      simp only [Bool.and_eq_true, decide_eq_true_eq] at hurl' ⊢
      exact ⟨⟨hurl'.1.1, fun hq => hurl'.1.2 (h.quote (.inl rfl) hq)⟩, fun hq => hurl'.2 (h.quote (.inr rfl) hq)⟩
  · rename_i hopen
    obtain ⟨rfl, rfl⟩ := Prod.mk.inj hs
    rw [scanIdentLike_eq (forks_nameRule h hrun), if_neg]
    cases r with
    | nil =>
      intro hopen'
      rcases h.next rfl with hhead | hparen
      · exact hopen (hhead.trans hopen')
      · exact hparen.1 hopen'
    | cons => exact hopen

/-! ### Marks -/

theorem forks_scanSingle (c : Char) : Forks (scanSingle c) := by
  intro q q' p r t _ hs
  obtain ⟨rfl, hr⟩ := Prod.mk.inj hs
  rw [List.append_cancel_right hr]
  rfl

theorem scanPunctuation_eq (c : Char) (cs : List Char) :
    scanPunctuation c cs =
      if cs.head? = some '=' ∧ (c = '$' || c = '*' || c = '^' || c = '|' || c = '~') = true then
        (⟨.comparison c, [c, '=']⟩, cs.tail)
      else if ['!', '-', '-'] <+: cs ∧ c = '<' then (⟨.markupOpen, ['<', '!', '-', '-']⟩, cs.drop 3)
      else scanSingle c cs := by
  unfold scanPunctuation
  split
  · simp
  · split <;> simp_all
  · rename_i hequals hmarkup
    have hhead : cs.head? ≠ some '=' := by
      intro hhead
      obtain ⟨more, rfl⟩ := List.head?_eq_some_iff.mp hhead
      exact hequals more rfl
    have hprefix : ¬ ['!', '-', '-'] <+: cs := by
      intro hp
      obtain ⟨more, rfl⟩ := hp
      exact hmarkup more rfl
    rw [if_neg (fun h => hhead h.1), if_neg (fun h => hprefix h.1)]

theorem forks_scanPunctuation (c : Char) : Forks (scanPunctuation c) := by
  intro q q' p r t h
  have hmarkup : ∀ c ∈ ['!', '-', '-'], goesOn c = true := List.all_eq_true.mp (by decide)
  simp only [scanPunctuation_eq, h.left.head?_append_iff (c := '=') (by decide), h.left.prefix_append_iff hmarkup,
    h.right.head?_append_iff (c := '=') (by decide), h.right.prefix_append_iff hmarkup]
  refine ite_imp_ite (fun hc hs => ?_) fun _ => ite_imp_ite (fun hc hs => ?_) fun _ => forks_scanSingle c h
  · obtain ⟨rest, rfl⟩ := List.head?_eq_some_iff.mp hc.1
    obtain ⟨rfl, hr⟩ := Prod.mk.inj hs
    rw [← List.append_cancel_right (show rest ++ q = r ++ q from hr)]
    rfl
  · obtain ⟨rest, rfl⟩ := hc.1
    obtain ⟨rfl, hr⟩ := Prod.mk.inj hs
    rw [← List.append_cancel_right (show rest ++ q = r ++ q from hr)]
    rfl

theorem forks_scanHash : Forks scanHash := by
  intro q q' p r t h
  unfold scanHash
  simp only [← h.startsIdent_eq, h.left.startsDigit_append, h.right.startsDigit_append,
    h.left.head?_append_iff (c := '-') (by decide), h.right.head?_append_iff (c := '-') (by decide)]
  exact ite_imp_ite (fun _ => forks_scanMarked _ _ h) fun _ =>
    ite_imp_ite (fun _ => forks_scanMarked _ _ h) fun _ => forks_scanSingle _ h

/-! ### Tokens -/

theorem take_markupClose (cs : List Char) : cs.take 2 = ['-', '>'] ↔ ['-', '>'] <+: cs :=
  eq_comm.trans List.prefix_iff_eq_take.symm

/-- The text `q'` may stand behind a token instead of `q`: the token takes nothing in that it did not before, and is no
string that its newline ends. -/
structure Token.Apart (t : Token) (q q' : List Char) : Prop where
  paren : q'.head? ≠ some '('
  blank : startsBlank q' = true → '\\' ∉ t.text ∧ t.kind ≠ .blank
  newline : startsNewline q = true → t.kind.isBadString = false

/-- A token stays the same where the text goes on in another way behind it, or behind a barrier further on. -/
theorem scan_fork {c : Char} (h : Fork q q' (c :: p) r) (hlast : r = [] → q.head? = q'.head? ∨ t.Apart q q')
    (hs : scan c (p ++ q) = (t, r ++ q)) : scan c (p ++ q') = (t, r ++ q') := by
  have htail : Fork q q' p r := h.of_append (u := [c])
  have hnumber : startsNumber (c :: (p ++ q)) = startsNumber (c :: (p ++ q')) := by
    rw [← List.cons_append, ← List.cons_append, h.left.startsNumber_append, h.right.startsNumber_append]
  have hident : startsIdent (c :: (p ++ q)) = startsIdent (c :: (p ++ q')) := h.startsIdent_eq
  have hmarkup : ∀ c ∈ ['-', '>'], goesOn c = true := List.all_eq_true.mp (by decide)
  simp only [scan, ← hnumber, ← hident, ← htail.startsIdent_eq, take_markupClose,
    h.left.head?_append_iff (c := '*') (by decide), h.right.head?_append_iff (c := '*') (by decide),
    h.left.prefix_append_iff hmarkup, h.right.prefix_append_iff hmarkup] at hs ⊢
  revert hs
  refine ite_imp_ite (fun _ hs => ?_) fun _ => ite_imp_ite (fun _ => scanString_fork h.more ?_) fun _ =>
    ite_imp_ite (fun _ => forks_scanHash htail) fun _ => ite_imp_ite (fun hc hs => ?_) fun _ =>
    ite_imp_ite (fun _ => forks_scanNumeric h) fun _ => ite_imp_ite (fun hc hs => ?_) fun _ =>
    ite_imp_ite (fun _ => forks_scanIdentLike h) fun _ =>
    ite_imp_ite (fun _ => forks_scanMarked _ _ htail) fun _ => forks_scanPunctuation c htail
  · refine scanBlank_fork (p := c :: p) (fun hr => (hlast hr).imp_right fun ha => ?_) hs
    have hk : t.kind = .blank := by rw [← (Prod.mk.inj hs).1]
    cases hb : startsBlank q' with
    | false => rfl
    | true => exact absurd hk (ha.blank hb).2
  · intro hk hr hn
    refine (hlast hr).elim id fun ha => ?_
    rw [ha.newline hn] at hk
    cases hk
  · obtain ⟨rest, rfl⟩ := List.head?_eq_some_iff.mp hc.2
    exact forks_scanComment (htail.of_append (u := ['*'])) hs
  · obtain ⟨rest, rfl⟩ := hc.2
    obtain ⟨rfl, hr⟩ := Prod.mk.inj hs
    rw [← List.append_cancel_right (show rest ++ q = r ++ q from hr)]
    rfl

/-! ### All tokens -/

theorem lex_eq_cons {cs : List Char} {ts : List Token} (h : lex cs = t :: ts) :
    ∃ c u x, t.text = c :: u ∧ cs = t.text ++ x ∧ scan c (u ++ x) = (t, x) ∧ lex x = ts := by
  cases cs with
  | nil => rw [lex] at h; cases h
  | cons c cs =>
    rw [lex] at h
    obtain ⟨rfl, hts⟩ := List.cons.inj h
    obtain ⟨hcut, hne⟩ := scan_cuts c cs
    obtain ⟨d, u, hu⟩ := List.exists_cons_of_ne_nil hne
    rw [hu, List.cons_append] at hcut
    obtain ⟨rfl, hcs⟩ := List.cons.inj hcut
    exact ⟨d, u, _, hu, by rw [hu, List.cons_append, hcs], by rw [hcs], hts⟩

/-- The tokens behind others are those of the text behind theirs. -/
theorem lex_of_append {us ts : List Token} {x : List Char} (h : lex (us.flatMap Token.text ++ x) = us ++ ts) :
    lex x = ts := by
  induction us with
  | nil => exact h
  | cons t us ih =>
    rw [List.flatMap_cons, List.append_assoc] at h
    obtain ⟨-, -, y, -, hy, -, hrest⟩ := lex_eq_cons h
    obtain rfl := List.append_cancel_left hy
    exact ih hrest

/-- Tokens in front of a text: first they are read, and then it is. -/
def Fronts (us : List Token) (x : List Char) : Prop := lex (us.flatMap Token.text ++ x) = us ++ lex x

theorem fronts_append {us ts : List Token} {x : List Char} :
    Fronts (us ++ ts) x ↔ Fronts us (ts.flatMap Token.text ++ x) ∧ Fronts ts x := by
  rw [Fronts, Fronts, List.flatMap_append, List.append_assoc, List.append_assoc]
  constructor
  · intro h
    have hts : Fronts ts x := lex_of_append h
    exact ⟨h.trans (congrArg (us ++ ·) hts.symm), hts⟩
  · rintro ⟨hus, hts⟩
    exact hus.trans (congrArg (us ++ ·) hts)

theorem fronts_cons {ts : List Token} {x : List Char} :
    Fronts (t :: ts) x ↔
      lex (t.text ++ (ts.flatMap Token.text ++ x)) = t :: lex (ts.flatMap Token.text ++ x) ∧ Fronts ts x := by
  rw [← List.singleton_append, fronts_append, Fronts, List.flatMap_singleton, List.singleton_append]

/-- **All tokens stay the same where the text goes on in another way behind them**, or behind a beginning `v` of more. -/
theorem Fronts.fork {us : List Token} {v : List Char} (ways : Ways q q') (h : Fronts us (v ++ q))
    (hnewline : (us.flatMap Token.text ++ v).getLast? = some '\\' → startsNewline q = startsNewline q')
    (hlast : v = [] → ∀ t ∈ us.getLast?, q.head? = q'.head? ∨ t.Apart q q') : Fronts us (v ++ q') := by
  induction us with
  | nil => rfl
  | cons t us ih =>
    rw [Fronts, List.flatMap_cons, List.append_assoc] at h
    obtain ⟨c, u, x, hu, hx, hs, hrest⟩ := lex_eq_cons h
    obtain rfl := List.append_cancel_left hx
    have hnil : us.flatMap Token.text ++ v = [] → us = [] ∧ v = [] := by
      intro hn
      obtain ⟨hus, hv⟩ := List.append_eq_nil_iff.mp hn
      refine ⟨?_, hv⟩
      cases us with
      | nil => rfl
      | cons t' us =>
        obtain ⟨c', u', -, hu', -⟩ := lex_eq_cons hrest
        rw [List.flatMap_cons, hu'] at hus
        cases hus
    have htext : (t :: us).flatMap Token.text ++ v = c :: (u ++ (us.flatMap Token.text ++ v)) := by
      rw [List.flatMap_cons, hu, List.append_assoc, List.cons_append]
    have hfork : Fork q q' (c :: (u ++ (us.flatMap Token.text ++ v))) (us.flatMap Token.text ++ v) := by
      refine { ways with newline := htext ▸ hnewline, next := fun hr => ?_ }
      obtain ⟨rfl, rfl⟩ := hnil hr
      refine (hlast rfl t rfl).imp_right fun ha => ⟨ha.paren, fun hslash => ?_⟩
      rw [hr, List.append_nil, ← hu] at hslash
      cases hb : startsBlank q' with
      | false => rfl
      | true => exact absurd hslash (ha.blank hb).1
    have hscan : scan c (u ++ (us.flatMap Token.text ++ v) ++ q') = (t, us.flatMap Token.text ++ v ++ q') := by
      refine scan_fork hfork (fun hr => ?_) (by simpa using hs)
      obtain ⟨rfl, rfl⟩ := hnil hr
      exact hlast rfl t rfl
    rw [Fronts, ← List.append_assoc, htext, List.cons_append, lex, hscan, List.append_assoc]
    refine congrArg (t :: ·) (ih hrest ?_ ?_)
    · intro hl
      exact hnewline (by rw [List.flatMap_cons, List.append_assoc, List.getLast?_append, hl]; rfl)
    · intro hv t' ht'
      exact hlast hv t' (by rw [List.getLast?_cons, ht']; rfl)

/-! ### Blanks and marks -/

theorem lex_blanks {blanks x : List Char} (hb : ∀ c ∈ blanks, isBlank c = true) (hne : blanks ≠ [])
    (hx : ∀ c ∈ x.head?, isBlank c = false) : lex (blanks ++ x) = ⟨.blank, blanks⟩ :: lex x := by
  have hscan := scanBlank_eq hb (startsBlank_eq_false_iff.mpr hx)
  obtain ⟨b, bs, rfl⟩ := List.exists_cons_of_ne_nil hne
  rw [List.cons_append] at hscan ⊢
  rw [lex, scan, if_pos (hb b List.mem_cons_self), hscan]

/-- The marks that are tokens of their own, whatever follows them. -/
def singles : List Char := [';', '\x7b', '\x7d', ':', ',', '(', ')', '[', ']']

def isSingle (c : Char) : Bool := singles.contains c

/-- What holds of every mark. -/
theorem of_isSingle {k : Char → Bool} (h : singles.all k = true) {c : Char} (hc : isSingle c = true) : k c = true :=
  List.all_eq_true.mp h c (by simpa [isSingle] using hc)

theorem scan_single {c : Char} (h : isSingle c = true) (x : List Char) : scan c x = scanSingle c x := by
  have hc : c = ';' ∨ c = '\x7b' ∨ c = '\x7d' ∨ c = ':' ∨ c = ',' ∨ c = '(' ∨ c = ')' ∨ c = '[' ∨ c = ']' := by
    simpa [isSingle, singles] using h
  have hpunctuation : scanPunctuation c x = scanSingle c x := by
    rw [scanPunctuation_eq, if_neg, if_neg]
    · rintro ⟨-, rfl⟩
      cases h
    · rintro ⟨-, hm⟩
      rcases hc with rfl | rfl | rfl | rfl | rfl | rfl | rfl | rfl | rfl <;> cases hm
  rw [← hpunctuation]
  rcases hc with rfl | rfl | rfl | rfl | rfl | rfl | rfl | rfl | rfl <;>
    simp [scan, isBlank, isNewline, startsNumber, startsUnsigned, splitSign, startsDigit, isDigit, startsIdent,
      isNameStart, startsEscape]

theorem lex_single {c : Char} (h : isSingle c = true) (x : List Char) :
    lex (c :: x) = (scanSingle c []).1 :: lex x := by
  rw [lex, scan_single h]
  rfl

/-- What follows a mark of its own makes no difference in front of it. -/
theorem ways_single {s : Char} (hs : isSingle s = true) (x y : List Char) : Ways (s :: x) (s :: y) := by
  have hbarrier : goesOn s = false := by simpa using of_isSingle (k := fun c => ! goesOn c) (by decide) hs
  have hblank : isBlank s = false := by simpa using of_isSingle (k := fun c => ! isBlank c) (by decide) hs
  have hquote : s ≠ '"' ∧ s ≠ '\'' := by
    simpa using of_isSingle (k := fun c => c ≠ '"' && c ≠ '\'') (by decide) hs
  exact ⟨by simp, .cons hbarrier x, .cons hbarrier y, by simpa [hblank] using hquote⟩

/-- **The tokens of a text whose last token is a mark of its own stay the same, whatever follows it.** -/
theorem lex_append {a : List Char} {t : Token} {s : Char} (h : (lex a).getLast? = some t) (ht : t.text = [s])
    (hs : isSingle s = true) (x : List Char) : lex (a ++ x) = lex a ++ lex x := by
  obtain ⟨us, hus⟩ := List.getLast?_eq_some_iff.mp h
  have ha : a = us.flatMap Token.text ++ [s] := by
    rw [← lex_texts a, hus, List.flatMap_append, List.flatMap_singleton, ht]
  subst ha
  have hmark : lex [s] = [t] := lex_of_append hus
  have hfronts : Fronts us ([] ++ [s]) := by rw [Fronts, List.nil_append, hmark, hus]
  have hsingle : lex (s :: x) = t :: lex x := by
    rw [lex_single hs, lex] at hmark
    rw [lex_single hs, (List.cons.inj hmark).1]
  have hfork : lex (us.flatMap Token.text ++ s :: x) = us ++ lex (s :: x) :=
    hfronts.fork (ways_single hs [] x) (fun _ => rfl) fun _ _ _ => .inl rfl
  rw [hus, List.append_assoc, List.singleton_append, hfork, hsingle, List.append_assoc]
  rfl

end Timeline.Css
