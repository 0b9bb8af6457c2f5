import Timeline.Number.Cursor
import Timeline.Number.Numeral
import Timeline.Proofs.Text.Utf8

/-! The cursor stops where the numeral ends that is taken off in characters.

Each of its moves, from a place between two characters, goes over the bytes of the piece that is taken off
there, so it ends between two characters again (`signEnd_utf8`, `digitsEnd_utf8`, `pointEnd?_utf8`,
`exponentEnd_utf8`). `numberEnd?_utf8` puts the moves together. -/
namespace Timeline.Number.Cursor

open Text

theorem isAscii_isSign : IsAscii isSign := by
  intro c hc
  rcases (by simpa [isSign] using hc : c = '+' ∨ c = '-') with rfl | rfl <;> decide

theorem isAscii_isMark : IsAscii isMark := by
  intro c hc
  rcases (by simpa [isMark] using hc : c = 'e' ∨ c = 'E') with rfl | rfl <;> decide

theorem isAscii_isDigit : IsAscii isDigit := by
  intro c hc
  simp only [isDigit, Bool.and_eq_true, decide_eq_true_eq] at hc
  exact Nat.lt_of_le_of_lt (Char.le_def.mp hc.2) (by decide)

theorem isAscii_eq {d : Char} (hd : d.toNat < 0x80) : IsAscii (· = d) := by
  intro c hc
  obtain rfl := of_decide_eq_true hc
  exact hd

theorem length_utf8_append (a b : List Char) : (utf8 (a ++ b)).length = (utf8 a).length + (utf8 b).length := by
  rw [utf8_append, List.length_append]

/-- One character of a class is one byte. -/
theorem length_utf8_concat {p : Char → Bool} (hp : IsAscii p) {c : Char} (hc : p c = true) (cs : List Char) :
    (utf8 (cs ++ [c])).length = (utf8 cs).length + 1 := by
  obtain ⟨b, more, hb, -, honly⟩ := first_utf8EncodeChar hp c
  rw [length_utf8_append, utf8_cons, hb, honly hc]
  rfl

/-- A piece has bytes if it has characters. -/
theorem length_lt_iff (front piece : List Char) :
    (utf8 front).length < (utf8 (front ++ piece)).length ↔ piece ≠ [] := by
  rw [length_utf8_append]
  cases piece with
  | nil => simp [utf8]
  | cons c cs =>
    have hsize := c.utf8Size_pos
    rw [length_utf8_cons]
    simp only [ne_eq, reduceCtorEq, not_false_eq_true, iff_true]
    omega

variable {cs front back : List Char}

theorem splitSign_cons (c : Char) (rest : List Char) :
    splitSign (c :: rest) = if isSign c then ([c], rest) else ([], c :: rest) := rfl

theorem splitExponent_cons (e : Char) (rest : List Char) :
    splitExponent (e :: rest) =
      if isMark e && startsDigit (splitSign rest).2 then
        (e :: ((splitSign rest).1 ++ (splitDigits (splitSign rest).2).1), (splitDigits (splitSign rest).2).2)
      else ([], e :: rest) := rfl

theorem signEnd_utf8 (h : front ++ back = cs) :
    signEnd (utf8 cs) (utf8 front).length = (utf8 (front ++ (splitSign back).1)).length := by
  rw [signEnd, ← h, standsAt_utf8 isAscii_isSign]
  cases back with
  | nil => simp [splitSign]
  | cons c rest =>
    rw [splitSign_cons, List.head?_cons, Option.any_some]
    split
    · rename_i hc
      exact (length_utf8_concat isAscii_isSign hc front).symm
    · rw [List.append_nil]

theorem digitsEnd_utf8 (h : front ++ back = cs) :
    digitsEnd (utf8 cs) (utf8 front).length = (utf8 (front ++ (splitDigits back).1)).length := by
  rw [← h]
  exact endOf_utf8 isAscii_isDigit front back

theorem pointEnd?_utf8 {whole : List Char} (h : front ++ (whole ++ back) = cs) :
    pointEnd? (utf8 cs) (utf8 front).length (utf8 (front ++ whole)).length =
      if whole = [] ∧ (Numeral.splitPoint whole back).1 = none then none
      else some (utf8 (front ++ (whole ++ (Numeral.splitPoint whole back).1.elim [] ('.' :: ·)))).length := by
  have hdot : IsAscii (· = '.') := isAscii_eq (by decide)
  have hpoint : standsAt (· = '.') (utf8 cs) (utf8 (front ++ whole)).length = back.head?.any (· = '.') := by
    rw [← h, ← List.append_assoc]
    exact standsAt_utf8 hdot (front ++ whole) back
  simp only [pointEnd?, hpoint, length_lt_iff]
  by_cases hback : ∃ rest, back = '.' :: rest
  · obtain ⟨rest, rfl⟩ := hback
    have hstart : (utf8 (front ++ whole)).length + 1 = (utf8 (front ++ whole ++ ['.'])).length :=
      (length_utf8_concat hdot rfl (front ++ whole)).symm
    have hstop : digitsEnd (utf8 cs) (utf8 (front ++ whole ++ ['.'])).length =
        (utf8 (front ++ whole ++ ['.'] ++ (splitDigits rest).1)).length := digitsEnd_utf8 (by simp [← h])
    simp only [hstart, hstop, length_lt_iff, Numeral.splitPoint]
    generalize splitDigits rest = taken
    by_cases hwhole : whole = [] <;> by_cases hdigits : taken.1 = [] <;> simp [hwhole, hdigits]
  · have hno : back.head?.any (· = '.') = false := by
      cases back with
      | nil => rfl
      | cons c rest =>
        have hc : c ≠ '.' := fun hc => hback ⟨rest, by rw [hc]⟩
        simpa using hc
    have hnone : Numeral.splitPoint whole back = (none, back) := by
      unfold Numeral.splitPoint
      split
      · rename_i rest
        exact absurd ⟨rest, rfl⟩ hback
      · rfl
    rw [hno, hnone]
    by_cases hwhole : whole = [] <;> simp [hwhole]

theorem exponentEnd_utf8 (h : front ++ back = cs) :
    exponentEnd (utf8 cs) (utf8 front).length = (utf8 (front ++ (splitExponent back).1)).length := by
  have hmark : standsAt isMark (utf8 cs) (utf8 front).length = back.head?.any isMark := by
    rw [← h]
    exact standsAt_utf8 isAscii_isMark front back
  rw [exponentEnd, hmark]
  cases back with
  | nil => simp [splitExponent]
  | cons e rest =>
    rw [List.head?_cons, Option.any_some]
    by_cases he : isMark e = true
    · have hsign : signEnd (utf8 cs) ((utf8 front).length + 1) = (utf8 (front ++ [e] ++ (splitSign rest).1)).length := by
        rw [← length_utf8_concat isAscii_isMark he front]
        exact signEnd_utf8 (by simp [← h])
      have hstop : digitsEnd (utf8 cs) (utf8 (front ++ [e] ++ (splitSign rest).1)).length =
          (utf8 (front ++ [e] ++ (splitSign rest).1 ++ (splitDigits (splitSign rest).2).1)).length :=
        digitsEnd_utf8 (by rw [List.append_assoc, splitSign_append, ← h]; simp)
      have hstarts : startsDigit (splitSign rest).2 = true ↔ (splitDigits (splitSign rest).2).1 ≠ [] := by
        cases (splitSign rest).2 with
        | nil => simp [startsDigit, splitDigits]
        | cons d more => by_cases hd : isDigit d <;> simp [startsDigit, splitDigits, hd]
      simp only [hsign, hstop, length_lt_iff, ← hstarts, splitExponent_cons, he, Bool.true_and, true_and]
      split <;> simp
    · simp [splitExponent_cons, he]

theorem numberEnd?_utf8 (cs : List Char) :
    numberEnd? (utf8 cs) (signEnd (utf8 cs) 0) =
      (Numeral.split? cs).map fun (n, _) => (utf8 n.text).length := by
  have hsign : signEnd (utf8 cs) 0 = (utf8 (splitSign cs).1).length :=
    signEnd_utf8 (show [] ++ cs = cs from rfl)
  rw [numberEnd?, hsign, digitsEnd_utf8 (splitSign_append cs), Numeral.split?]
  dsimp only
  generalize hs : splitSign cs = signed
  obtain ⟨sign, unsigned⟩ := signed
  have hcs : sign ++ unsigned = cs := by rw [← splitSign_append cs, hs]
  dsimp only
  generalize hw : splitDigits unsigned = digits
  obtain ⟨whole, behind⟩ := digits
  have hunsigned : whole ++ behind = unsigned := by rw [← splitDigits_append unsigned, hw]
  rw [pointEnd?_utf8 (by rw [hunsigned, hcs])]
  dsimp only
  split
  · rfl
  · generalize hp : Numeral.splitPoint whole behind = pointed
    obtain ⟨fraction, last⟩ := pointed
    have hbehind : fraction.elim [] ('.' :: ·) ++ last = behind := by
      have hpoint := Numeral.splitPoint_append whole behind
      rwa [hp] at hpoint
    have hcut : sign ++ (whole ++ fraction.elim [] ('.' :: ·)) ++ last = cs := by
      rw [List.append_assoc, List.append_assoc, hbehind, hunsigned, hcs]
    rw [Option.map_some, Option.map_some, exponentEnd_utf8 hcut]
    simp only [Numeral.text, List.append_assoc]

end Timeline.Number.Cursor
