import Timeline.Number.Numeral
import Timeline.Proofs.Text.Digits

/-! The numeral at the front of a text is the longest one there.

Which texts are numerals is said by a grammar. What is taken off the front of a text is a word of it, and
every word in front of the text is no longer (`split?_longest`); where nothing is taken off, there is
no word (`not_word_of_split?`). A word alone is read as a whole (`parse?_word`). -/
namespace Timeline.Number

open Text

/-! ### The grammar -/

/-- Digits, or nothing. -/
def IsDigits (w : List Char) : Prop := ∀ c ∈ w, isDigit c = true

/-- At most one sign. -/
inductive SignWord : List Char → Prop
  | none : SignWord []
  | plus : SignWord ['+']
  | minus : SignWord ['-']

/-- Digits, with a point behind them or not, and more digits behind the point or not; or a point with
digits behind it. -/
inductive PointWord : List Char → Prop
  | whole {ds : List Char} (hd : IsDigits ds) (hne : ds ≠ []) : PointWord ds
  | point {ds fs : List Char} (hd : IsDigits ds) (hne : ds ≠ []) (hf : IsDigits fs) : PointWord (ds ++ '.' :: fs)
  | fraction {fs : List Char} (hf : IsDigits fs) (hne : fs ≠ []) : PointWord ('.' :: fs)

/-- A mark, at most one sign, and digits; or nothing. -/
inductive ExponentWord : List Char → Prop
  | none : ExponentWord []
  | digits {e : Char} {sign ds : List Char} (he : e = 'e' ∨ e = 'E') (hs : SignWord sign) (hd : IsDigits ds)
    (hne : ds ≠ []) : ExponentWord (e :: (sign ++ ds))

/-- Numerals. -/
inductive NumberWord : List Char → Prop
  | mk {sign point exponent : List Char} (hs : SignWord sign) (hp : PointWord point) (he : ExponentWord exponent) :
    NumberWord (sign ++ (point ++ exponent))

/-- The longest numeral in front of a text. -/
structure IsLongest (p text : List Char) : Prop where
  word : NumberWord p
  front : p <+: text
  longest : ∀ q, NumberWord q → q <+: text → q.length ≤ p.length

/-- There is only one. -/
theorem IsLongest.unique {p q text : List Char} (hp : IsLongest p text) (hq : IsLongest q text) : p = q := by
  have hlength := Nat.le_antisymm (hq.longest p hp.word hp.front) (hp.longest q hq.word hq.front)
  exact (List.prefix_of_prefix_length_le hp.front hq.front (Nat.le_of_eq hlength)).eq_of_length hlength

/-! ### What is taken off is a word -/

theorem isDigits_splitDigits (cs : List Char) : IsDigits (splitDigits cs).1 :=
  List.all_eq_true.mp List.all_takeWhile

theorem signWord_splitSign (cs : List Char) : SignWord (splitSign cs).1 := by
  fun_cases splitSign cs with
  | case1 c rest hc =>
    rcases (by simpa using hc : c = '+' ∨ c = '-') with rfl | rfl
    · exact .plus
    · exact .minus
  | case2 => exact .none
  | case3 => exact .none

theorem exponentWord_splitExponent (cs : List Char) : ExponentWord (splitExponent cs).1 := by
  fun_cases splitExponent cs with
  | case1 e rest sign digits hs he =>
    simp only [Bool.and_eq_true, Bool.or_eq_true, decide_eq_true_eq] at he
    have hsign : SignWord sign := by
      have := signWord_splitSign rest
      rwa [hs] at this
    refine .digits he.1 hsign (isDigits_splitDigits digits) ?_
    obtain ⟨d, more, rfl⟩ : ∃ d more, digits = d :: more := by
      cases digits with
      | nil => cases he.2
      | cons d more => exact ⟨d, more, rfl⟩
    have hd : isDigit d = true := he.2
    simp [splitDigits, hd]
  | case2 => exact .none
  | case3 => exact .none

theorem pointWord_splitPoint {whole : List Char} (hw : IsDigits whole) (cs : List Char) :
    ¬(whole = [] ∧ (Numeral.splitPoint whole cs).1 = none) →
      PointWord (whole ++ (Numeral.splitPoint whole cs).1.elim [] ('.' :: ·)) := by
  fun_cases Numeral.splitPoint whole cs with
  | case1 rest digits last hs hnone => exact fun h => absurd ⟨hnone.1, rfl⟩ h
  | case2 rest digits last hs hsome =>
    intro _
    have hd : IsDigits digits := by
      have := isDigits_splitDigits rest
      rwa [hs] at this
    by_cases hwhole : whole = []
    · subst hwhole
      exact .fraction hd fun hnil => hsome ⟨rfl, hnil⟩
    · exact .point hw hwhole hd
  | case3 cs hc =>
    intro h
    rw [Option.elim_none, List.append_nil]
    exact .whole hw fun hnil => h ⟨hnil, rfl⟩

variable {t rest : List Char} {n : Numeral}

/-- The pieces of the numeral that is taken off, one behind the other. -/
theorem numberWord_text (h : Numeral.split? t = some (n, rest)) : NumberWord n.text := by
  rw [Numeral.split?] at h
  dsimp only at h
  split at h
  · cases h
  · rename_i hpoint
    obtain ⟨rfl, rfl⟩ := Prod.mk.inj (Option.some.inj h)
    rw [Numeral.text, ← List.append_assoc _ _ (splitExponent _).1]
    exact .mk (signWord_splitSign _) (pointWord_splitPoint (isDigits_splitDigits _) _ hpoint)
      (exponentWord_splitExponent _)

/-! ### No word goes further -/

theorem splitDigits_append_of_digits {ds : List Char} (hd : IsDigits ds) (r : List Char) :
    splitDigits (ds ++ r) = (ds ++ (splitDigits r).1, (splitDigits r).2) := by
  rw [splitDigits, List.takeWhile_append_of_pos hd, List.dropWhile_append_of_pos hd]
  rfl

/-- A sign is taken off as it was written if no second one follows. -/
theorem SignWord.splitSign_append {sign : List Char} (h : SignWord sign) {r : List Char}
    (hr : splitSign r = ([], r)) : splitSign (sign ++ r) = (sign, r) := by
  cases h with
  | none => exact hr
  | plus => rfl
  | minus => rfl

theorem splitSign_of_digit {c : Char} (hc : isDigit c = true) (r : List Char) : splitSign (c :: r) = ([], c :: r) := by
  rw [splitSign, if_neg]
  simp [ne_of_class hc '+' rfl, ne_of_class hc '-' rfl]

theorem IsDigits.splitSign_append {ds : List Char} (h : IsDigits ds) (hne : ds ≠ []) (r : List Char) :
    splitSign (ds ++ r) = ([], ds ++ r) := by
  obtain ⟨c, cs, rfl⟩ := List.exists_cons_of_ne_nil hne
  exact splitSign_of_digit (h c List.mem_cons_self) (cs ++ r)

theorem PointWord.splitSign_append {point : List Char} (h : PointWord point) (r : List Char) :
    splitSign (point ++ r) = ([], point ++ r) := by
  cases h with
  | whole hd hne => exact hd.splitSign_append hne r
  | @point ds fs hd hne hf =>
    rw [List.append_assoc]
    exact hd.splitSign_append hne _
  | fraction hf hne => rfl

/-- An exponent does not start with a digit, and it is no point. -/
theorem ExponentWord.splitDigits_append {exponent : List Char} (h : ExponentWord exponent) (hne : exponent ≠ [])
    (r : List Char) : splitDigits (exponent ++ r) = ([], exponent ++ r) := by
  cases h with
  | none => exact absurd rfl hne
  | digits he hs hd hds => rcases he with rfl | rfl <;> rfl

theorem ExponentWord.splitPoint_append {exponent : List Char} (h : ExponentWord exponent) (hne : exponent ≠ [])
    (whole r : List Char) : Numeral.splitPoint whole (exponent ++ r) = (Option.none, exponent ++ r) := by
  cases h with
  | none => exact absurd rfl hne
  | digits he hs hd hds => rcases he with rfl | rfl <;> rfl

theorem ExponentWord.length_le {exponent : List Char} (h : ExponentWord exponent) (r : List Char) :
    exponent.length ≤ (splitExponent (exponent ++ r)).1.length := by
  cases h with
  | none => exact Nat.zero_le _
  | @digits e sign ds he hs hd hne =>
    have hsign : splitSign (sign ++ (ds ++ r)) = (sign, ds ++ r) :=
      hs.splitSign_append (hd.splitSign_append hne r)
    rw [List.cons_append, List.append_assoc, splitExponent, hsign]
    dsimp only
    rw [if_pos (by simp [he, startsDigit_of_digits hd hne]), splitDigits_append_of_digits hd]
    simp

/-- Behind digits nothing of an exponent is lost: either there is none, or the digits end in front of it. -/
theorem ExponentWord.length_le_behind {exponent : List Char} (h : ExponentWord exponent) (r : List Char) :
    exponent.length ≤ (splitDigits (exponent ++ r)).1.length +
      (splitExponent (splitDigits (exponent ++ r)).2).1.length := by
  by_cases hne : exponent = []
  · simp [hne]
  · rw [h.splitDigits_append hne]
    exact Nat.le_add_left_of_le (h.length_le r)

/-- What is taken off, if it is known up to the exponent. -/
theorem split?_eq {cs sign unsigned whole behind last : List Char} {fraction : Option (List Char)}
    (hs : splitSign cs = (sign, unsigned)) (hw : splitDigits unsigned = (whole, behind))
    (hp : Numeral.splitPoint whole behind = (fraction, last)) (hsome : ¬(whole = [] ∧ fraction = none)) :
    Numeral.split? cs = some (⟨sign, whole, fraction, (splitExponent last).1⟩, (splitExponent last).2) := by
  rw [Numeral.split?, hs]
  dsimp only
  rw [hw]
  dsimp only
  rw [hp]
  exact if_neg hsome

/-- In front of a text with a word in front, a numeral is taken off that is no shorter. -/
theorem split?_word {q : List Char} (h : NumberWord q) (r : List Char) :
    ∃ n rest, Numeral.split? (q ++ r) = some (n, rest) ∧ q.length ≤ n.text.length := by
  obtain @⟨sign, point, exponent, hs, hp, he⟩ := h
  have hsign : splitSign (sign ++ (point ++ exponent) ++ r) = (sign, point ++ (exponent ++ r)) := by
    rw [List.append_assoc, List.append_assoc]
    exact hs.splitSign_append (hp.splitSign_append _)
  have hlength := he.length_le_behind r
  cases hp with
  | whole hd hne =>
    have hdigits := splitDigits_append_of_digits hd (exponent ++ r)
    by_cases hx : exponent = []
    · -- There may be a point and an exponent in what follows the word.
      subst hx
      refine ⟨_, _, split?_eq hsign hdigits rfl (by simp [hne]), ?_⟩
      simp only [Numeral.text, List.length_append, List.length_nil]
      omega
    · rw [he.splitDigits_append hx, List.append_nil] at hdigits
      refine ⟨_, _, split?_eq hsign hdigits (he.splitPoint_append hx point r) (by simp [hne]), ?_⟩
      have hlength := he.length_le r
      simp only [Numeral.text, List.length_append, Option.elim_none, List.length_nil]
      omega
  | @point ds fs hd hne hf =>
    have hdigits : splitDigits (ds ++ '.' :: fs ++ (exponent ++ r)) = (ds, '.' :: (fs ++ (exponent ++ r))) := by
      rw [List.append_assoc, splitDigits_append_of_digits hd]
      simp [splitDigits, show isDigit '.' = false from rfl]
    have hpoint : Numeral.splitPoint ds ('.' :: (fs ++ (exponent ++ r))) =
        (some (fs ++ (splitDigits (exponent ++ r)).1), (splitDigits (exponent ++ r)).2) := by
      rw [Numeral.splitPoint, splitDigits_append_of_digits hf]
      exact if_neg fun hnil => hne hnil.1
    refine ⟨_, _, split?_eq hsign hdigits hpoint (by simp), ?_⟩
    simp only [Numeral.text, List.length_append, Option.elim_some, List.length_cons]
    omega
  | @fraction fs hf hne =>
    have hdigits : splitDigits ('.' :: fs ++ (exponent ++ r)) = ([], '.' :: (fs ++ (exponent ++ r))) := rfl
    have hpoint : Numeral.splitPoint [] ('.' :: (fs ++ (exponent ++ r))) =
        (some (fs ++ (splitDigits (exponent ++ r)).1), (splitDigits (exponent ++ r)).2) := by
      rw [Numeral.splitPoint, splitDigits_append_of_digits hf]
      exact if_neg fun hnil => hne (List.append_eq_nil_iff.mp hnil.2).1
    refine ⟨_, _, split?_eq hsign hdigits hpoint (by simp), ?_⟩
    simp only [Numeral.text, List.length_append, Option.elim_some, List.length_cons, List.length_nil]
    omega

/-! ### The longest word -/

theorem split?_longest (h : Numeral.split? t = some (n, rest)) : IsLongest n.text t where
  word := numberWord_text h
  front := ⟨rest, Numeral.split?_append h⟩
  longest q hq hfront := by
    obtain ⟨r, rfl⟩ := hfront
    obtain ⟨m, more, hm, hlength⟩ := split?_word hq r
    obtain ⟨rfl, rfl⟩ := Prod.mk.inj (Option.some.inj (h.symm.trans hm))
    exact hlength

theorem not_word_of_split? (h : Numeral.split? t = none) (q : List Char) (hq : NumberWord q) : ¬q <+: t := by
  rintro ⟨r, rfl⟩
  obtain ⟨m, more, hm, -⟩ := split?_word hq r
  rw [h] at hm
  cases hm

theorem ofQuotient_ne_nan (negative : Bool) (a b : Nat) : Double.ofQuotient negative a b ≠ .nan := by
  unfold Double.ofQuotient
  split
  · exact Double.noConfusion
  · dsimp only
    split <;> split <;> exact Double.noConfusion

theorem ofDecimal_ne_nan (negative : Bool) (digits : Nat) (exponent : Int) :
    Double.ofDecimal negative digits exponent ≠ .nan := by
  fun_cases Double.ofDecimal negative digits exponent with
  | case1 => exact Double.noConfusion
  | case2 => exact Double.noConfusion
  | case3 => exact ofQuotient_ne_nan _ _ _
  | case4 => exact Double.noConfusion
  | case5 => exact ofQuotient_ne_nan _ _ _

/-- A word is read as a whole, and it stands for some number. -/
theorem parse?_word {p : List Char} (h : NumberWord p) : ∃ x, parse? p = some x ∧ x ≠ .nan := by
  obtain ⟨n, rest, hn, hlength⟩ := split?_word h []
  rw [List.append_nil] at hn
  have htext := congrArg List.length (Numeral.split?_append hn)
  rw [List.length_append] at htext
  obtain rfl : rest = [] := List.length_eq_zero_iff.mp (by omega)
  exact ⟨n.value, by rw [parse?, hn], ofDecimal_ne_nan _ _ _⟩

end Timeline.Number
