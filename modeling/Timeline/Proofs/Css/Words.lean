import Timeline.Proofs.Css.Locality
import Timeline.Proofs.Text.Digits
import Timeline.Text.WhiteSpace

/-! Words that are read as they were written.

Text made of blanks, single marks, names or quoted strings is cut into just these tokens, when
what follows does not go on with the last one. Of a word that is only said to be free of blanks,
brackets, quotes and the like (`isTame`) the tokens are not told, but only that they are its own and that
each stands for itself (`lex_word`). -/
namespace Timeline.Css

open Text

/-! ### Classes of characters -/

theorem not_mem_of_class {p : Char → Bool} {cs : List Char} {d : Char} (hcs : ∀ c ∈ cs, p c = true) (hd : p d = false) :
    d ∉ cs := by
  intro hm
  exact ne_of_class (hcs d hm) d hd rfl

/-- No character is a blank that is in a class without blanks. -/
theorem isBlank_eq_false {p : Char → Bool} {c : Char} (hc : p c = true)
    (hp : [' ', '\n', '\r', '\t', '\x0c'].all (! p ·) = true) : isBlank c = false := by
  have hne : ∀ d ∈ [' ', '\n', '\r', '\t', '\x0c'], c ≠ d := by
    intro d hd
    apply ne_of_class hc
    simpa using List.all_eq_true.mp hp d hd
  simp [isBlank, isNewline, hne]

/-! ### Blanks and marks -/

/-- A single blank. -/
theorem lex_space {x : List Char} (hx : ∀ c ∈ x.head?, isBlank c = false) :
    lex (' ' :: x) = ⟨.blank, [' ']⟩ :: lex x := by
  show lex ([' '] ++ x) = _
  exact lex_blanks (List.forall_mem_singleton.mpr rfl) (by simp) hx

/-! ### Names -/

theorem texts_plain (cs : List Char) : Piece.texts (cs.map Piece.plain) = cs := by
  induction cs with
  | nil => rfl
  | cons c cs ih =>
    rw [List.map_cons, Piece.texts, List.flatMap_cons, ← Piece.texts, ih]
    rfl

theorem values_plain {cs : List Char} (h : '\x00' ∉ cs) : Piece.values (cs.map Piece.plain) = String.ofList cs := by
  have : (cs.map Piece.plain).flatMap Piece.value = cs := by
    induction cs with
    | nil => rfl
    | cons c cs ih =>
      simp only [List.mem_cons, not_or] at h
      rw [List.map_cons, List.flatMap_cons, ih h.2]
      simp [Piece.plain, readable, Ne.symm h.1]
  rw [Piece.values, this]

/-- Without backslashes a name ends with its last name character. -/
theorem nameRule_run (u : List Char) {s : Char} (x : List Char) (hu : '\\' ∉ u) (hs : isNameChar s = false)
    (hb : s ≠ '\\') :
    nameRule.run (u ++ s :: x) = ((u.takeWhile isNameChar).map Piece.plain, u.dropWhile isNameChar ++ s :: x) := by
  have hstop : ∀ (c : Char) (cs : List Char), isNameChar c = false → c ≠ '\\' →
      nameRule.run (c :: cs) = ([], c :: cs) := by
    intro c cs hc hne
    exact nameRule.run_of_none (by simp [nameRule, hc, startsEscape, hne])
  induction u with
  | nil => exact hstop s x hs hb
  | cons c u ih =>
    simp only [List.mem_cons, not_or] at hu
    by_cases hc : isNameChar c
    · have hnext : nameRule.next (c :: (u ++ s :: x)) = some (.plain c, u ++ s :: x) := by simp [nameRule, hc]
      rw [List.cons_append, nameRule.run_of_some hnext, ih hu.2]
      simp [hc]
    · rw [List.cons_append, hstop c _ (by simpa using hc) (Ne.symm hu.1)]
      simp [hc]

theorem isDigit_of_isNameStart {c : Char} (h : isNameStart c = true) : isDigit c = false := by
  simp only [isNameStart, isDigit, Char.le_def, UInt32.le_iff_toNat_le, Bool.or_eq_true, Bool.and_eq_true,
    decide_eq_true_eq, Bool.and_eq_false_iff, decide_eq_false_iff_not, Char.toNat] at *
  rcases h with ((((h | h) | rfl) | rfl) | h)
  all_goals simp at *
  all_goals omega

theorem startsNumber_of_isNameStart {c : Char} (h : isNameStart c = true) (cs : List Char) :
    startsNumber (c :: cs) = false := by
  have hne := ne_of_class h
  have hsign : splitSign (c :: cs) = ([], c :: cs) := by
    simp [splitSign, hne '+' (by decide), hne '-' (by decide)]
  rw [startsNumber, hsign, startsUnsigned.eq_2]
  · exact isDigit_of_isNameStart h
  · intro rest he
    exact hne '.' (by decide) (List.cons.inj he).1

/-- A text that begins like a name, and not with a hyphen or an escape, begins with a name. -/
theorem scan_nameStart {c : Char} (h : isNameStart c = true) (cs : List Char) :
    scan c cs = scanIdentLike (c :: cs) := by
  have hne := ne_of_class h
  have hblank := isBlank_eq_false h (by decide)
  have hident : startsIdent (c :: cs) = true := by
    rw [startsIdent.eq_2, h, Bool.true_or]
    intro _ _ he
    exact absurd he (hne '-' (by decide))
  simp [scan, hblank, hident, startsNumber_of_isNameStart h, hne '"' (by decide), hne '\'' (by decide),
    hne '#' (by decide), hne '/' (by decide), hne '-' (by decide)]

/-- Text that is a name as it stands: a letter, underscore or character beyond ASCII, and then
also digits and hyphens. -/
structure IsName (cs : List Char) : Prop where
  start : ∃ c ∈ cs.head?, isNameStart c = true
  chars : ∀ c ∈ cs, isNameChar c = true
  noNul : '\x00' ∉ cs

instance (cs : List Char) : Decidable (IsName cs) :=
  decidable_of_iff (cs.head?.any isNameStart = true ∧ cs.all isNameChar = true ∧ '\x00' ∉ cs)
    ⟨fun h => ⟨(Option.any_eq_true _ _).mp h.1, List.all_eq_true.mp h.2.1, h.2.2⟩,
      fun h => ⟨(Option.any_eq_true _ _).mpr h.start, List.all_eq_true.mpr h.chars, h.noNul⟩⟩

theorem nameRule_run_name {cs : List Char} {s : Char} (x : List Char) (h : ∀ c ∈ cs, isNameChar c = true)
    (hs : isNameChar s = false) (hb : s ≠ '\\') : nameRule.run (cs ++ s :: x) = (cs.map Piece.plain, s :: x) := by
  have hu : '\\' ∉ cs := not_mem_of_class h (by decide)
  have htake : (cs ++ []).takeWhile isNameChar = cs ++ [] := List.takeWhile_append_of_pos h
  have hdrop : (cs ++ []).dropWhile isNameChar = [] := List.dropWhile_append_of_pos h
  rw [List.append_nil] at htake hdrop
  rw [nameRule_run cs x hu hs hb, htake, hdrop, List.nil_append]

theorem lex_ident {cs : List Char} {s : Char} (x : List Char) (h : IsName cs) (hs : isNameChar s = false)
    (hb : s ≠ '\\') (hopen : s ≠ '(') : lex (cs ++ s :: x) = ⟨.ident (String.ofList cs), cs⟩ :: lex (s :: x) := by
  have hrun := nameRule_run_name x h.chars hs hb
  obtain ⟨c, hc, hstart⟩ := h.start
  obtain ⟨rest, rfl⟩ := List.head?_eq_some_iff.mp hc
  rw [List.cons_append] at hrun ⊢
  rw [lex, scan_nameStart hstart, scanIdentLike_eq hrun, texts_plain, values_plain h.noNul,
    if_neg (by simpa using hopen)]

theorem lex_atKeyword {cs : List Char} {s : Char} (x : List Char) (h : ∀ c ∈ cs, isNameChar c = true)
    (hstart : startsIdent (cs ++ s :: x) = true) (hnul : '\x00' ∉ cs) (hs : isNameChar s = false) (hb : s ≠ '\\') :
    lex ('@' :: (cs ++ s :: x)) = ⟨.atKeyword (String.ofList cs), '@' :: cs⟩ :: lex (s :: x) := by
  have hscan : scan '@' (cs ++ s :: x) = scanMarked '@' .atKeyword (cs ++ s :: x) := by
    simp [scan, isBlank, isNewline, startsNumber, startsUnsigned, splitSign, startsDigit, isDigit,
      startsIdent.eq_2, isNameStart, startsEscape, hstart]
  rw [lex, hscan, scanMarked, nameRule_run_name x h hs hb]
  dsimp only
  rw [texts_plain, values_plain hnul]

/-! ### Strings -/

/-- A character in a string in double quotes: quotes and backslashes behind a backslash,
newlines by their numbers, and every other character as it is. -/
def quoteChar (c : Char) : List Char :=
  if c = '"' || c = '\\' then ['\\', c]
  else if isNewline c then '\\' :: (Nat.toDigits 16 c.toNat ++ [' '])
  else [c]

/-- A text in double quotes. -/
def quoted (cs : List Char) : List Char := '"' :: (cs.flatMap quoteChar ++ ['"'])

theorem stringRule_next_quoteChar {c : Char} (h : c ≠ '\x00') (x : List Char) :
    (stringRule '"').next (quoteChar c ++ x) = some (⟨quoteChar c, [c]⟩, x) := by
  by_cases hquote : c = '"' ∨ c = '\\'
  · rcases hquote with rfl | rfl <;> rfl
  by_cases hnewline : isNewline c = true
  · have hc : (c = '\n' ∨ c = '\x0c') ∨ c = '\r' := by simpa [isNewline] using hnewline
    rcases hc with (rfl | rfl) | rfl <;> rfl
  · have hchar : quoteChar c = [c] := by simp [quoteChar, not_or.mp hquote, hnewline]
    rw [not_or] at hquote
    rw [hchar]
    simp [stringRule, hquote, hnewline, Piece.plain, readable, h]

theorem stringRule_run_quoted {cs : List Char} (h : '\x00' ∉ cs) (x : List Char) :
    (stringRule '"').run (cs.flatMap quoteChar ++ '"' :: x) = (cs.map fun c => ⟨quoteChar c, [c]⟩, '"' :: x) := by
  induction cs with
  | nil => exact (stringRule '"').run_of_none rfl
  | cons c cs ih =>
    simp only [List.mem_cons, not_or] at h
    rw [List.flatMap_cons, List.append_assoc, (stringRule '"').run_of_some (stringRule_next_quoteChar (Ne.symm h.1) _),
      ih h.2]
    rfl

theorem lex_quoted {cs : List Char} (h : '\x00' ∉ cs) (x : List Char) :
    lex (quoted cs ++ x) = ⟨.string (String.ofList cs), quoted cs⟩ :: lex x := by
  have hscan : scan '"' (cs.flatMap quoteChar ++ '"' :: x) = scanString '"' (cs.flatMap quoteChar ++ '"' :: x) := rfl
  have happ : quoted cs ++ x = '"' :: (cs.flatMap quoteChar ++ '"' :: x) := by simp [quoted]
  have htexts : Piece.texts (cs.map fun c => ⟨quoteChar c, [c]⟩) = cs.flatMap quoteChar := by
    rw [Piece.texts, List.flatMap_map]
  have hvalues : Piece.values (cs.map fun c => ⟨quoteChar c, [c]⟩) = String.ofList cs := by
    rw [Piece.values, List.flatMap_map, List.flatMap_singleton']
  rw [happ, lex, hscan, scanString, stringRule_run_quoted h]
  dsimp only
  rw [if_pos rfl, htexts, hvalues]
  rfl

/-! ### Other words -/

/-- A token that stands for itself: no blank or comment, no bracket, nothing cut short and no semicolon. -/
def Kind.isPlain : Kind → Bool
  | ident _ | atKeyword _ | hash _ _ | number | percentage | dimension _ => true
  | colon | comparison _ | markupOpen | markupClose | delim _ => true
  | _ => false

/-- Characters that no blank, comma, semicolon, bracket, quote, escape or comment begins with. -/
def isTame (c : Char) : Bool :=
  ! isWhiteSpace c && ! [',', ';', '(', ')', '[', ']', '\x7b', '\x7d', '"', '\'', '\\', '/'].contains c

/-- A text without some character lies in front of it. -/
theorem eq_append_of_not_mem {w r u x : List Char} {s : Char} (h : w ++ r = u ++ s :: x) (hs : s ∉ w) :
    ∃ v, u = w ++ v ∧ r = v ++ s :: x := by
  rcases List.append_eq_append_iff.mp h with ⟨v, hv, hr⟩ | ⟨v, hv, hr⟩
  · exact ⟨v, hv, hr⟩
  · cases v with
    | nil => exact ⟨[], by simpa using hv.symm, by simpa using hr.symm⟩
    | cons c v =>
      obtain ⟨rfl, -⟩ := List.cons.inj hr
      exact absurd (by simp [hv]) hs

/-- What a word may end in front of. -/
def isEnd (c : Char) : Bool := c = ',' || c = ' '

/-- A token of its own kind that ends in front of `s`. -/
def EndsBefore (s : Char) (r : Token × List Char) : Prop := r.1.kind.isPlain = true ∧ s ∉ r.1.text

section Tame

variable {s : Char} {u : List Char}

theorem isNameChar_of_isEnd (hs : isEnd s = true) : isNameChar s = false := by
  rcases (by simpa [isEnd] using hs : s = ',' ∨ s = ' ') with rfl | rfl <;> decide

theorem texts_nameRule_run (hu : ∀ c ∈ u, isTame c = true) (hs : isEnd s = true) (x : List Char) :
    s ∉ Piece.texts (nameRule.run (u ++ s :: x)).1 := by
  have hname := isNameChar_of_isEnd hs
  have hb : s ≠ '\\' := ne_of_class hs '\\' (by decide)
  rw [nameRule_run u x (not_mem_of_class hu (by decide)) hname hb, texts_plain]
  exact not_mem_of_class (List.all_eq_true.mp List.all_takeWhile) hname

theorem endsBefore_scanMarked (mark : Char) {kind : String → Kind} (hk : ∀ name, (kind name).isPlain = true)
    (hm : s ≠ mark) (hu : ∀ c ∈ u, isTame c = true) (hs : isEnd s = true) (x : List Char) :
    EndsBefore s (scanMarked mark kind (u ++ s :: x)) := by
  refine ⟨hk _, ?_⟩
  show s ∉ mark :: Piece.texts (nameRule.run (u ++ s :: x)).1
  rw [List.mem_cons, not_or]
  exact ⟨hm, texts_nameRule_run hu hs x⟩

theorem endsBefore_scanSingle {c : Char} (hc : isTame c = true) (hs : s ≠ c) (cs : List Char) :
    EndsBefore s (scanSingle c cs) := by
  have hne := ne_of_class hc
  refine ⟨?_, by simpa [scanSingle] using hs⟩
  simp only [scanSingle, hne ';' (by decide), hne ',' (by decide), hne '(' (by decide), hne ')' (by decide),
    hne '[' (by decide), hne ']' (by decide), hne '\x7b' (by decide), hne '\x7d' (by decide), if_false]
  split <;> rfl

theorem mem_splitNumber (cs : List Char) : ∀ c ∈ (splitNumber cs).1, isNumberChar c = true := by
  simp only [splitNumber, List.forall_mem_append]
  exact ⟨⟨⟨mem_splitSign, fun c hc => mem_splitDigits hc⟩, mem_splitFraction⟩, mem_splitExponent⟩

theorem endsBefore_scanNumeric (hu : ∀ c ∈ u, isTame c = true) (hs : isEnd s = true) (x : List Char) :
    EndsBefore s (scanNumeric (u ++ s :: x)) := by
  have happ := splitNumber_append (u ++ s :: x)
  have hchars := mem_splitNumber (u ++ s :: x)
  generalize hsplit : splitNumber (u ++ s :: x) = result at happ hchars
  obtain ⟨number, rest⟩ := result
  have hnumber : s ∉ number := by
    apply not_mem_of_class hchars
    rcases (by simpa [isEnd] using hs : s = ',' ∨ s = ' ') with rfl | rfl <;> decide
  obtain ⟨v, rfl, rfl⟩ := eq_append_of_not_mem happ hnumber
  rw [scanNumeric_eq hsplit]
  split
  · have hpercent : s ≠ '%' := ne_of_class hs '%' (by decide)
    exact ⟨rfl, by simp [hnumber, hpercent]⟩
  split
  · have hv : ∀ c ∈ v, isTame c = true := fun c hc => hu c (List.mem_append_right _ hc)
    exact ⟨rfl, by simp [hnumber, texts_nameRule_run hv hs]⟩
  · exact ⟨rfl, hnumber⟩

theorem endsBefore_scanIdentLike (hu : ∀ c ∈ u, isTame c = true) (hs : isEnd s = true) (x : List Char) :
    EndsBefore s (scanIdentLike (u ++ s :: x)) := by
  have happ := nameRule.run_append (u ++ s :: x)
  have htexts := texts_nameRule_run hu hs x
  generalize hrun : nameRule.run (u ++ s :: x) = result at happ htexts
  obtain ⟨pieces, rest⟩ := result
  obtain ⟨v, rfl, rfl⟩ := eq_append_of_not_mem happ htexts
  have hhead : (v ++ s :: x).head? ≠ some '(' := by
    cases v with
    | nil =>
      intro he
      exact ne_of_class hs '(' (by decide) (Option.some.inj he)
    | cons c v =>
      intro he
      exact ne_of_class (hu c (by simp)) '(' (by decide) (Option.some.inj he)
  rw [scanIdentLike_eq hrun, if_neg hhead]
  exact ⟨rfl, htexts⟩

theorem endsBefore_scanHash (hu : ∀ c ∈ u, isTame c = true) (hs : isEnd s = true) (x : List Char) :
    EndsBefore s (scanHash (u ++ s :: x)) := by
  have hne : s ≠ '#' := ne_of_class hs '#' (by decide)
  unfold scanHash
  split
  · exact endsBefore_scanMarked '#' (fun _ => rfl) hne hu hs x
  split
  · exact endsBefore_scanMarked '#' (fun _ => rfl) hne hu hs x
  · exact endsBefore_scanSingle (by decide) hne _

theorem endsBefore_scanPunctuation {c : Char} (hc : isTame c = true) (hs : isEnd s = true) (cs : List Char) :
    EndsBefore s (scanPunctuation c cs) := by
  have hne : s ≠ c := by
    intro he
    subst he
    rcases (by simpa [isEnd] using hs : s = ',' ∨ s = ' ') with rfl | rfl <;> revert hc <;> decide
  have hend := ne_of_class hs
  unfold scanPunctuation
  split
  · split
    · exact ⟨rfl, by simp [hne, hend '=' (by decide)]⟩
    · exact endsBefore_scanSingle hc hne _
  · split
    · exact ⟨rfl, by simp [hend '<' (by decide), hend '!' (by decide), hend '-' (by decide)]⟩
    · exact endsBefore_scanSingle hc hne _
  · exact endsBefore_scanSingle hc hne _

/-- The token in front of a word of tame characters. -/
theorem endsBefore_scan {c : Char} (hc : isTame c = true) (hu : ∀ d ∈ u, isTame d = true) (hs : isEnd s = true)
    (x : List Char) : EndsBefore s (scan c (u ++ s :: x)) := by
  have hcu : ∀ d ∈ c :: u, isTame d = true := List.forall_mem_cons.mpr ⟨hc, hu⟩
  have hne := ne_of_class hc
  have hend := ne_of_class hs
  simp only [scan, isBlank_eq_false hc (by decide), hne '"' (by decide), hne '\'' (by decide), hne '/' (by decide),
    Bool.false_eq_true, decide_false, Bool.or_self, if_false, false_and]
  split
  · exact endsBefore_scanHash hu hs x
  split
  · exact endsBefore_scanNumeric hcu hs x
  split
  · exact ⟨rfl, by simp [hend '-' (by decide), hend '>' (by decide)]⟩
  split
  · exact endsBefore_scanIdentLike hcu hs x
  split
  · exact endsBefore_scanMarked '@' (fun _ => rfl) (hend '@' (by decide)) hu hs x
  · exact endsBefore_scanPunctuation hc hs _

/-- A word of tame characters, in front of a comma or space, is cut into tokens that stand for themselves. -/
theorem lex_word (hu : ∀ c ∈ u, isTame c = true) (hs : isEnd s = true) (x : List Char) :
    ∃ ts, lex (u ++ s :: x) = ts ++ lex (s :: x) ∧ (∀ t ∈ ts, t.kind.isPlain = true) ∧ ts.flatMap Token.text = u := by
  induction hn : u.length using Nat.strongRecOn generalizing u with
  | _ n ih =>
    cases u with
    | nil => exact ⟨[], rfl, by simp, rfl⟩
    | cons c u =>
      have hu' := List.forall_mem_cons.mp hu
      obtain ⟨hplain, hends⟩ := endsBefore_scan hu'.1 hu'.2 hs x
      obtain ⟨hcut, hne⟩ := scan_cuts c (u ++ s :: x)
      obtain ⟨v, hv, hr⟩ := eq_append_of_not_mem (u := c :: u) hcut hends
      have hlength : v.length < n := by
        have := congrArg List.length hv
        have := List.length_pos_iff.mpr hne
        simp only [List.length_append] at *
        omega
      have htame : ∀ d ∈ v, isTame d = true := by
        intro d hd
        have hmem : d ∈ c :: u := by
          rw [hv]
          exact List.mem_append_right _ hd
        exact hu d hmem
      obtain ⟨ts, hlex, hts, htexts⟩ := ih v.length hlength htame rfl
      refine ⟨(scan c (u ++ s :: x)).1 :: ts, ?_, List.forall_mem_cons.mpr ⟨hplain, hts⟩, ?_⟩
      · rw [List.cons_append, lex, hr, hlex]
        rfl
      · rw [List.flatMap_cons, htexts, hv]

end Tame

end Timeline.Css
