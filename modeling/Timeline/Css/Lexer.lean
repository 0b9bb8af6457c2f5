import Timeline.Css.Piece

/-! Cutting a stylesheet into tokens. Every scanner takes a token off the front of a text
and leaves the rest.

`lex_texts`: the texts of the tokens, put one after the other, are the text that was
read. -/
namespace Timeline.Css

open Text (isDigit startsDigit splitSign splitDigits splitFraction splitExponent)

/-! ### Scanners

`Cuts cs r`: the result `r` is a token that takes at least one character off `cs`, and
what it leaves. -/

def Cuts (cs : List Char) (r : Token × List Char) : Prop := r.1.text ++ r.2 = cs ∧ r.1.text ≠ []

/-- A comment, from after its opening mark: its text, whether it is closed, and the rest. -/
def splitComment : List Char → List Char × Bool × List Char
  | '*' :: '/' :: rest => (['*', '/'], true, rest)
  | c :: cs => let (text, closed, rest) := splitComment cs; (c :: text, closed, rest)
  | [] => ([], false, [])

theorem splitComment_append (cs : List Char) :
    (splitComment cs).1 ++ (splitComment cs).2.2 = cs := by
  fun_induction splitComment cs with
  | case1 => rfl
  | case2 c cs _ text closed rest h ih => rw [h] at ih; simpa using ih
  | case3 => rfl

def scanComment (cs : List Char) : Token × List Char :=
  let (text, closed, rest) := splitComment cs
  (⟨.comment closed, '/' :: '*' :: text⟩, rest)

theorem scanComment_cuts (cs : List Char) : Cuts ('/' :: '*' :: cs) (scanComment cs) := by
  simp [Cuts, scanComment, splitComment_append]

def scanBlank (cs : List Char) : Token × List Char :=
  (⟨.blank, cs.takeWhile isBlank⟩, cs.dropWhile isBlank)

theorem scanBlank_cuts {c : Char} (cs : List Char) (h : isBlank c = true) :
    Cuts (c :: cs) (scanBlank (c :: cs)) := by
  simp [Cuts, scanBlank, h]

/-- A string, from after its opening quote. -/
def scanString (quote : Char) (cs : List Char) : Token × List Char :=
  let (pieces, rest) := (stringRule quote).run cs
  let value := Piece.values pieces
  let text := quote :: Piece.texts pieces
  match rest with
  | [] => (⟨.string value, text⟩, [])
  | c :: more =>
    if c = quote then (⟨.string value, text ++ [quote]⟩, more)
    else (⟨.badString value, text⟩, c :: more)

theorem scanString_cuts (quote : Char) (cs : List Char) :
    Cuts (quote :: cs) (scanString quote cs) := by
  have h := (stringRule quote).run_append cs
  unfold scanString Cuts
  split
  rename_i pieces rest hr
  rw [hr] at h
  cases rest with
  | nil => simpa using h
  | cons c more => by_cases hc : c = quote <;> simp_all

/-- A number: a sign, digits, a fraction and an exponent, of which only some need be there. -/
def splitNumber (cs : List Char) : List Char × List Char :=
  let (sign, cs) := splitSign cs
  let (whole, cs) := splitDigits cs
  let (fraction, cs) := splitFraction cs
  let (exponent, cs) := splitExponent cs
  (sign ++ whole ++ fraction ++ exponent, cs)

theorem splitNumber_append (cs : List Char) : (splitNumber cs).1 ++ (splitNumber cs).2 = cs := by
  simp only [splitNumber, List.append_assoc, Text.splitExponent_append, Text.splitFraction_append,
    Text.splitDigits_append, Text.splitSign_append]

theorem splitNumber_ne_nil {cs : List Char} (h : startsNumber cs = true) : (splitNumber cs).1 ≠ [] := by
  intro hnil
  simp only [splitNumber, List.append_eq_nil_iff] at hnil
  obtain ⟨⟨⟨hs, hw⟩, hf⟩, -⟩ := hnil
  unfold startsNumber at h
  generalize (splitSign cs).2 = ds at *
  unfold startsUnsigned at h
  split at h
  · simp_all [splitDigits, splitFraction, isDigit]
  · cases ds with
    | nil => simp [startsDigit] at h
    | cons d ds => simp_all [splitDigits, startsDigit]

/-- A number with its unit or percent sign. -/
def scanNumeric (cs : List Char) : Token × List Char :=
  let (number, rest) := splitNumber cs
  match rest with
  | '%' :: more => (⟨.percentage, number ++ ['%']⟩, more)
  | _ =>
    if startsIdent rest then
      let (pieces, more) := nameRule.run rest
      (⟨.dimension (Piece.values pieces), number ++ Piece.texts pieces⟩, more)
    else (⟨.number, number⟩, rest)

theorem scanNumeric_cuts {cs : List Char} (hs : startsNumber cs = true) : Cuts cs (scanNumeric cs) := by
  have h := splitNumber_append cs
  have hne := splitNumber_ne_nil hs
  unfold scanNumeric
  split
  rename_i number rest hn
  rw [hn] at h hne
  split
  · simp_all [Cuts]
  · split
    · have hr := nameRule.run_append rest
      simp_all [Cuts]
    · exact ⟨h, hne⟩

/-- An address without quotes, from after its opening parenthesis, if no quote follows the
blanks there. `start` is the text in front. Blanks may stand at its end, but nothing after them. -/
def scanUrl (start : List Char) (cs : List Char) : Token × List Char :=
  let blanks := cs.takeWhile isBlank
  let (pieces, rest) := urlRule.run (cs.dropWhile isBlank)
  let text := start ++ blanks ++ Piece.texts pieces ++ rest.takeWhile isBlank
  match rest.dropWhile isBlank with
  | [] => (⟨.url (Piece.values pieces), text⟩, [])
  | c :: more =>
    if c = ')' then (⟨.url (Piece.values pieces), text ++ [')']⟩, more)
    else
      let (junk, last) := badUrlRule.run more
      (⟨.badUrl, text ++ [c] ++ Piece.texts junk ++ last.take 1⟩, last.drop 1)

theorem scanUrl_cuts (start cs : List Char) (hne : start ≠ []) :
    Cuts (start ++ cs) (scanUrl start cs) := by
  have hb : cs.takeWhile isBlank ++ cs.dropWhile isBlank = cs := List.takeWhile_append_dropWhile
  have hp := urlRule.run_append (cs.dropWhile isBlank)
  unfold scanUrl
  generalize urlRule.run (cs.dropWhile isBlank) = r at hp ⊢
  obtain ⟨pieces, rest⟩ := r
  simp only at hp ⊢
  have he : rest.takeWhile isBlank ++ rest.dropWhile isBlank = rest := List.takeWhile_append_dropWhile
  have hall : start ++ cs.takeWhile isBlank ++ Piece.texts pieces ++ rest.takeWhile isBlank ++
      rest.dropWhile isBlank = start ++ cs := by
    simp [he, hp, hb]
  split
  · rename_i hd
    rw [hd] at hall
    exact ⟨hall, by simp [hne]⟩
  · rename_i c more hd
    rw [hd] at hall
    split
    · subst_vars
      exact ⟨by simpa using hall, by simp [hne]⟩
    · have hb := badUrlRule.run_append more
      generalize badUrlRule.run more = r at hb ⊢
      obtain ⟨junk, last⟩ := r
      refine ⟨?_, by simp [hne]⟩
      rw [← hall, ← hb]
      cases last <;> simp

/-- Whether a name is `url`, in letters of either case. -/
def isUrlName (name : String) : Bool := name.toList.map Char.toLower = ['u', 'r', 'l']

/-- An identifier, a function, or an address. -/
def scanIdentLike (cs : List Char) : Token × List Char :=
  let (pieces, rest) := nameRule.run cs
  let name := Piece.values pieces
  let text := Piece.texts pieces
  match rest with
  | '(' :: more =>
    let afterBlanks := more.dropWhile isBlank
    if isUrlName name && afterBlanks.head? ≠ some '"' && afterBlanks.head? ≠ some '\'' then
      scanUrl (text ++ ['(']) more
    else (⟨.function name, text ++ ['(']⟩, more)
  | _ => (⟨.ident name, text⟩, rest)

theorem scanIdentLike_cuts {cs : List Char} (h : startsIdent cs = true) : Cuts cs (scanIdentLike cs) := by
  have hr := nameRule.run_append cs
  have hne := nameRule_run_ne_nil (.inl h)
  unfold scanIdentLike
  split
  rename_i pieces rest hn
  rw [hn] at hr hne
  simp only at hr hne ⊢
  split
  · rename_i more
    split
    · have := scanUrl_cuts (Piece.texts pieces ++ ['(']) more (by simp)
      rwa [List.append_assoc, List.singleton_append, hr] at this
    · exact ⟨by simpa using hr, by simp⟩
  · exact ⟨hr, hne⟩

/-- A name after a mark such as the at-sign. -/
def scanMarked (mark : Char) (kind : String → Kind) (cs : List Char) : Token × List Char :=
  let (pieces, rest) := nameRule.run cs
  (⟨kind (Piece.values pieces), mark :: Piece.texts pieces⟩, rest)

theorem scanMarked_cuts (mark : Char) (kind : String → Kind) (cs : List Char) :
    Cuts (mark :: cs) (scanMarked mark kind cs) := by
  simp [Cuts, scanMarked, nameRule.run_append]

/-- A token of one character. -/
def scanSingle (c : Char) (cs : List Char) : Token × List Char :=
  let kind : Kind :=
    if c = ':' then .colon
    else if c = ';' then .semicolon
    else if c = ',' then .comma
    else if c = '(' then .opening .round
    else if c = '[' then .opening .square
    else if c = '\x7b' then .opening .curly
    else if c = ')' then .closing .round
    else if c = ']' then .closing .square
    else if c = '\x7d' then .closing .curly
    else .delim c
  (⟨kind, [c]⟩, cs)

/-- A token made of punctuation: two characters of a comparison, or one character. -/
def scanPunctuation (c : Char) (cs : List Char) : Token × List Char :=
  match cs with
  | '=' :: more =>
    if c = '$' || c = '*' || c = '^' || c = '|' || c = '~' then (⟨.comparison c, [c, '=']⟩, more)
    else scanSingle c cs
  | '!' :: '-' :: '-' :: more =>
    if c = '<' then (⟨.markupOpen, ['<', '!', '-', '-']⟩, more) else scanSingle c cs
  | _ => scanSingle c cs

theorem scanPunctuation_cuts (c : Char) (cs : List Char) : Cuts (c :: cs) (scanPunctuation c cs) := by
  unfold scanPunctuation
  split <;> try split
  all_goals simp_all [Cuts, scanSingle]

/-- A number sign: the mark of a name, if a name follows. -/
def scanHash (cs : List Char) : Token × List Char :=
  if startsIdent cs then scanMarked '#' (.hash · true) cs
  else if startsDigit cs || cs.head? = some '-' then scanMarked '#' (.hash · false) cs
  else scanSingle '#' cs

theorem scanHash_cuts (cs : List Char) : Cuts ('#' :: cs) (scanHash cs) := by
  unfold scanHash
  split
  · exact scanMarked_cuts ..
  · split
    · exact scanMarked_cuts ..
    · exact ⟨rfl, by simp [scanSingle]⟩

/-- The token at the front of a text. -/
def scan (c : Char) (cs : List Char) : Token × List Char :=
  if isBlank c then scanBlank (c :: cs)
  else if c = '"' || c = '\'' then scanString c cs
  else if c = '#' then scanHash cs
  else if c = '/' ∧ cs.head? = some '*' then scanComment cs.tail
  else if startsNumber (c :: cs) then scanNumeric (c :: cs)
  else if c = '-' ∧ cs.take 2 = ['-', '>'] then (⟨.markupClose, ['-', '-', '>']⟩, cs.drop 2)
  else if startsIdent (c :: cs) then scanIdentLike (c :: cs)
  else if c = '@' ∧ startsIdent cs then scanMarked '@' .atKeyword cs
  else scanPunctuation c cs

theorem scan_cuts (c : Char) (cs : List Char) : Cuts (c :: cs) (scan c cs) := by
  unfold scan
  split
  · exact scanBlank_cuts _ ‹_›
  split
  · exact scanString_cuts _ _
  split
  · subst_vars; exact scanHash_cuts _
  split
  · rename_i h
    obtain ⟨rfl, h⟩ := h
    cases cs with
    | nil => simp at h
    | cons d cs =>
      obtain rfl : d = '*' := by simpa using h
      exact scanComment_cuts cs
  split
  · exact scanNumeric_cuts ‹_›
  split
  · rename_i h
    obtain ⟨rfl, h⟩ := h
    refine ⟨?_, by simp⟩
    conv => rhs; rw [← List.take_append_drop 2 cs, h]
    rfl
  split
  · exact scanIdentLike_cuts ‹_›
  split
  · rename_i h
    obtain ⟨rfl, -⟩ := h
    exact scanMarked_cuts ..
  · exact scanPunctuation_cuts _ _

theorem length_scan_lt (c : Char) (cs : List Char) : (scan c cs).2.length < (c :: cs).length := by
  obtain ⟨h, hne⟩ := scan_cuts c cs
  have := congrArg List.length h
  have := List.length_pos_iff.mpr hne
  simp only [List.length_append, List.length_cons] at *
  omega

/-! ### All tokens of a text -/

def lex : List Char → List Token
  | [] => []
  | c :: cs => (scan c cs).1 :: lex (scan c cs).2
termination_by cs => cs.length
decreasing_by exact length_scan_lt c cs

/-- Nothing of a text is lost or added by cutting it into tokens. -/
theorem lex_texts (cs : List Char) : (lex cs).flatMap Token.text = cs := by
  fun_induction lex cs with
  | case1 => rfl
  | case2 c cs ih => rw [List.flatMap_cons, ih, (scan_cuts c cs).1]

end Timeline.Css
