import Mathlib.Tactic.NormNum
import Timeline.Animation.Offset
import Timeline.Proofs.Number.Cursor
import Timeline.Proofs.Number.Longest
import Timeline.Proofs.Number.Value

/-! The number at the front of a text.

The cursor stops behind the longest numeral there is (`numberEnd?_eq_some_iff`), a place between two characters.
So what is cut off is a numeral, reading it as a whole never fails, and nothing behind it matters
(`offset_exact`). -/
namespace Timeline.Animation

open Number
open Number.Cursor (numberEnd? numberEnd?_utf8 signEnd signEnd_utf8)
open Text

/-- A sign, or none, and the word for what has no bound. -/
def StartsInfinite (t : List Char) : Prop :=
  ∃ sign rest, SignWord sign ∧ sign ++ ("Infinity".toList ++ rest) = t

/-- What a text without white space in front says. -/
inductive Reading (t : List Char) : Double → Prop
  | infinite {sign rest : List Char} (hs : SignWord sign) (ht : sign ++ ("Infinity".toList ++ rest) = t) :
    Reading t (.infinite (sign = ['-']))
  | nothing (hinf : ¬StartsInfinite t) (hno : ∀ p, NumberWord p → ¬p <+: t) : Reading t .nan
  | number {p : List Char} {x : Double} (hinf : ¬StartsInfinite t) (hp : IsLongest p t) (hx : parse? p = some x)
    (hnan : x ≠ .nan) : Reading t x

variable {t : List Char}

/-! ### Infinities -/

theorem startsInfinite_iff (t : List Char) :
    StartsInfinite t ↔ "Infinity".toList.isPrefixOf (splitSign t).2 = true := by
  rw [List.isPrefixOf_iff_prefix]
  constructor
  · rintro ⟨sign, rest, hs, rfl⟩
    rw [hs.splitSign_append rfl]
    exact List.prefix_append _ rest
  · rintro ⟨rest, hrest⟩
    exact ⟨_, rest, signWord_splitSign t, by rw [hrest, splitSign_append]⟩

theorem standsAt_minus (t : List Char) : standsAt (· = '-') (utf8 t) 0 = decide ((splitSign t).1 = ['-']) := by
  have hfirst := standsAt_utf8 (Cursor.isAscii_eq (d := '-') (by decide)) [] t
  rw [List.nil_append] at hfirst
  refine hfirst.trans ?_
  fun_cases splitSign t with
  | case1 c rest hc => simp
  | case2 c rest hc =>
    have hne : c ≠ '-' := by simpa using fun h => hc (by simp [h])
    simp [hne]
  | case3 => rfl

/-- The word is no numeral. -/
theorem split?_of_startsInfinite (h : StartsInfinite t) : Numeral.split? t = none := by
  obtain ⟨sign, rest, hs, rfl⟩ := h
  rw [Numeral.split?, hs.splitSign_append rfl]
  rfl

/-! ### Places where the text is cut -/

theorem splitAt?_signEnd (t : List Char) : splitAt? t (signEnd (utf8 t) 0) = some (splitSign t) := by
  have hend : signEnd (utf8 t) 0 = (utf8 (splitSign t).1).length := signEnd_utf8 (show [] ++ t = t from rfl)
  have hcut := splitAt?_utf8 (splitSign t).1 (splitSign t).2
  rw [splitSign_append] at hcut
  rw [hend, hcut]

/-- The cursor stops behind the longest numeral. -/
theorem numberEnd?_eq_some_iff (t : List Char) (stop : Nat) :
    numberEnd? (utf8 t) (signEnd (utf8 t) 0) = some stop ↔ ∃ p, IsLongest p t ∧ (utf8 p).length = stop := by
  rw [numberEnd?_utf8]
  constructor
  · intro h
    obtain ⟨⟨n, rest⟩, hn, hstop⟩ := Option.map_eq_some_iff.mp h
    exact ⟨n.text, split?_longest hn, hstop⟩
  · rintro ⟨p, hp, hstop⟩
    cases hn : Numeral.split? t with
    | none => exact absurd hp.front (not_word_of_split? hn p hp.word)
    | some answer =>
      obtain ⟨n, rest⟩ := answer
      rw [hp.unique (split?_longest hn)] at hstop
      exact congrArg some hstop

theorem splitAt?_of_isLongest {p : List Char} (h : IsLongest p t) :
    ∃ rest, splitAt? t (utf8 p).length = some (p, rest) := by
  obtain ⟨rest, rfl⟩ := h.front
  exact ⟨rest, splitAt?_utf8 p rest⟩

/-! ### The number -/

theorem leadingNumber?_of_startsInfinite (text : List Char) (h : StartsInfinite (trimStart text)) :
    leadingNumber? text = some (.infinite ((splitSign (trimStart text)).1 = ['-'])) := by
  simp only [leadingNumber?, splitAt?_signEnd, Option.bind_some]
  rw [if_pos ((startsInfinite_iff _).mp h), standsAt_minus]

theorem leadingNumber?_of_no_word (text : List Char) (hinf : ¬StartsInfinite (trimStart text))
    (hno : ∀ p, NumberWord p → ¬p <+: trimStart text) : leadingNumber? text = some .nan := by
  have hend : numberEnd? (utf8 (trimStart text)) (signEnd (utf8 (trimStart text)) 0) = none := by
    refine Option.eq_none_iff_forall_ne_some.mpr fun stop hstop => ?_
    obtain ⟨p, hp, -⟩ := (numberEnd?_eq_some_iff _ stop).mp hstop
    exact hno p hp.word hp.front
  simp only [leadingNumber?, splitAt?_signEnd, Option.bind_some]
  rw [if_neg (mt (startsInfinite_iff _).mpr hinf), hend]

/-- A numeral in front is cut off and read. The number is never missing. -/
theorem leadingNumber?_of_isLongest {text p : List Char} (hp : IsLongest p (trimStart text)) :
    leadingNumber? text = parse? p := by
  have hinf : ¬StartsInfinite (trimStart text) := fun h =>
    not_word_of_split? (split?_of_startsInfinite h) p hp.word hp.front
  have hend := (numberEnd?_eq_some_iff _ _).mpr ⟨p, hp, rfl⟩
  obtain ⟨rest, hcut⟩ := splitAt?_of_isLongest hp
  obtain ⟨x, hx, -⟩ := parse?_word hp.word
  simp only [leadingNumber?, splitAt?_signEnd, Option.bind_some]
  rw [if_neg (mt (startsInfinite_iff _).mpr hinf), hend]
  simp only [hcut, Option.map_some, hx, Option.getD_some]

/-- In front of any text is the word for what has no bound, or a longest numeral, or neither. -/
theorem front_cases (t : List Char) :
    StartsInfinite t ∨ (¬StartsInfinite t ∧ ∃ p, IsLongest p t) ∨
      (¬StartsInfinite t ∧ ∀ p, NumberWord p → ¬p <+: t) := by
  by_cases hinf : StartsInfinite t
  · exact .inl hinf
  cases hn : Numeral.split? t with
  | none => exact .inr (.inr ⟨hinf, not_word_of_split? hn⟩)
  | some answer => exact .inr (.inl ⟨hinf, _, split?_longest hn⟩)

/-- A text says only one thing. -/
theorem Reading.unique {x y : Double} (hx : Reading t x) (hy : Reading t y) : x = y := by
  cases hx with
  | @infinite sign rest hs ht =>
    cases hy with
    | @infinite sign' rest' hs' ht' =>
      have hsign : splitSign t = (sign, "Infinity".toList ++ rest) := by rw [← ht]; exact hs.splitSign_append rfl
      have hsign' : splitSign t = (sign', "Infinity".toList ++ rest') := by rw [← ht']; exact hs'.splitSign_append rfl
      rw [(Prod.mk.inj (hsign.symm.trans hsign')).1]
    | nothing hinf => exact absurd ⟨sign, rest, hs, ht⟩ hinf
    | number hinf => exact absurd ⟨sign, rest, hs, ht⟩ hinf
  | nothing hinf hno =>
    cases hy with
    | infinite hs ht => exact absurd ⟨_, _, hs, ht⟩ hinf
    | nothing => rfl
    | @number p _ _ hp => exact absurd hp.front (hno p hp.word)
  | @number p _ hinf hp hx =>
    cases hy with
    | infinite hs ht => exact absurd ⟨_, _, hs, ht⟩ hinf
    | nothing _ hno => exact absurd hp.front (hno p hp.word)
    | @number q _ _ hq hy =>
      rw [hp.unique hq, hy] at hx
      exact (Option.some.inj hx).symm

/-- What is asked of the number at the front of a text. -/
structure Exact (text : List Char) : Prop where
  /-- There is an answer, so no character was cut. -/
  answered : leadingNumber? text = some (leadingNumber text)
  reading : ∀ x, Reading (trimStart text) x ↔ x = leadingNumber text
  /-- Nothing but the longest numeral matters, and it is read as a whole. -/
  alone : ∀ p, IsLongest p (trimStart text) → parse? p = some (leadingNumber text)
  /-- A sign ends between two characters. -/
  signCut : ∃ sign rest, sign ++ rest = trimStart text ∧ (utf8 sign).length = signEnd (utf8 (trimStart text)) 0
  /-- So does the numeral, which is where the cursor stops. -/
  numberCut : ∀ stop, numberEnd? (utf8 (trimStart text)) (signEnd (utf8 (trimStart text)) 0) = some stop ↔
    ∃ p, IsLongest p (trimStart text) ∧ (utf8 p).length = stop

theorem leadingNumber_eq {text : List Char} {x : Double} (h : leadingNumber? text = some x) :
    leadingNumber text = x := by
  rw [leadingNumber, h, Option.getD_some]

theorem reading_leadingNumber (text : List Char) :
    ∃ x, leadingNumber? text = some x ∧ Reading (trimStart text) x := by
  rcases front_cases (trimStart text) with hinf | ⟨hinf, p, hp⟩ | ⟨hinf, hno⟩
  · refine ⟨_, leadingNumber?_of_startsInfinite text hinf, ?_⟩
    obtain ⟨sign, rest, hs, ht⟩ := hinf
    have hsign : splitSign (trimStart text) = (sign, "Infinity".toList ++ rest) := by
      rw [← ht]
      exact hs.splitSign_append rfl
    rw [hsign]
    exact .infinite hs ht
  · obtain ⟨x, hx, hnan⟩ := parse?_word hp.word
    exact ⟨x, (leadingNumber?_of_isLongest hp).trans hx, .number hinf hp hx hnan⟩
  · exact ⟨.nan, leadingNumber?_of_no_word text hinf hno, .nothing hinf hno⟩

theorem exact_leadingNumber (text : List Char) : Exact text := by
  obtain ⟨x, hx, hreading⟩ := reading_leadingNumber text
  obtain rfl := leadingNumber_eq hx
  exact {
    answered := hx
    reading := fun y => ⟨fun hy => hy.unique hreading, fun hy => hy ▸ hreading⟩
    alone := fun p hp => (leadingNumber?_of_isLongest hp).symm.trans hx
    signCut := ⟨_, _, splitSign_append _, (signEnd_utf8 (show [] ++ _ = _ from rfl)).symm⟩
    numberCut := numberEnd?_eq_some_iff _ }

/-- **Exact prefixes**: the number at the front of any text is the infinity, or what its longest numeral
stands for, or none at all, and nothing else counts. The offset of a selector is this number,
but for the words for the two ends. -/
theorem offset_exact :
    (∀ text, Exact text) ∧
    (∀ selector, Offset.ofSelector selector =
      if selector = "from" then .ofDecimal false 0 0
      else if selector = "to" then .ofDecimal false 100 0
      else leadingNumber selector.toList) ∧
    Double.ofDecimal false 0 0 = .zero false ∧ (Double.ofDecimal false 100 0).value? = some 100 := by
  refine ⟨exact_leadingNumber, fun selector => rfl, rfl, ?_⟩
  have hundred : Double.ofDecimal false 100 0 = .finite false (100 * 2 ^ 46) (-46) := by decide +kernel
  rw [hundred, Double.value?]
  norm_num

end Timeline.Animation
