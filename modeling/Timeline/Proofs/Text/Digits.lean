import Timeline.Text.Digits

/-! The characters of written numbers, and numbers put together from their pieces.

The pieces that are cut off a text consist of the characters of numbers only. A piece that was written is
cut off whole when what follows does not go on with it. -/
namespace Timeline.Text

/-- A character of a class is none of those outside of it. -/
theorem ne_of_class {p : Char → Bool} {c : Char} (hc : p c = true) : ∀ d, p d = false → c ≠ d := by
  intro d hd he
  rw [he, hd] at hc
  cases hc

/-- The characters of written numbers. -/
def isNumberChar (c : Char) : Bool := isDigit c || ['+', '-', '.', 'e', 'E'].contains c

/-! ### What is cut off -/

theorem mem_splitDigits {cs : List Char} {c : Char} (h : c ∈ (splitDigits cs).1) : isNumberChar c = true := by
  have hd := List.all_eq_true.mp List.all_takeWhile c h
  simp [isNumberChar, hd]

theorem mem_splitSign {cs : List Char} : ∀ c ∈ (splitSign cs).1, isNumberChar c = true := by
  fun_cases splitSign cs with
  | case1 c rest hc =>
    rcases (by simpa using hc : c = '+' ∨ c = '-') with rfl | rfl <;>
      exact List.forall_mem_singleton.mpr (by decide)
  | case2 => simp
  | case3 => simp

theorem mem_splitFraction {cs : List Char} : ∀ c ∈ (splitFraction cs).1, isNumberChar c = true := by
  fun_cases splitFraction cs with
  | case1 rest hd => exact List.forall_mem_cons.mpr ⟨by decide, fun c hc => mem_splitDigits hc⟩
  | case2 => simp
  | case3 => simp

theorem mem_splitExponent {cs : List Char} : ∀ c ∈ (splitExponent cs).1, isNumberChar c = true := by
  cases cs with
  | nil => simp [splitExponent]
  | cons e rest =>
    rw [splitExponent]
    dsimp only
    split
    · rename_i he
      have he : e = 'e' ∨ e = 'E' := by
        simp only [Bool.and_eq_true, Bool.or_eq_true, decide_eq_true_eq] at he
        exact he.1
      refine List.forall_mem_cons.mpr ⟨?_, List.forall_mem_append.mpr ⟨mem_splitSign, fun c hc => mem_splitDigits hc⟩⟩
      rcases he with rfl | rfl <;> decide
    · simp

/-! ### What was written -/

variable {digits rest : List Char}

theorem splitDigits_of_digits (hd : ∀ c ∈ digits, isDigit c = true) (hr : startsDigit rest = false) :
    splitDigits (digits ++ rest) = (digits, rest) := by
  have htake : rest.takeWhile isDigit = [] ∧ rest.dropWhile isDigit = rest := by
    cases rest with
    | nil => exact ⟨rfl, rfl⟩
    | cons c cs =>
      have hc : isDigit c = false := hr
      simp [hc]
  rw [splitDigits, List.takeWhile_append_of_pos hd, List.dropWhile_append_of_pos hd, htake.1, htake.2,
    List.append_nil]

theorem startsDigit_of_digits (hd : ∀ c ∈ digits, isDigit c = true) (hne : digits ≠ []) :
    startsDigit (digits ++ rest) = true := by
  obtain ⟨c, cs, rfl⟩ := List.exists_cons_of_ne_nil hne
  exact hd c (by simp)

theorem splitFraction_of_digits (hd : ∀ c ∈ digits, isDigit c = true) (hne : digits ≠ [])
    (hr : startsDigit rest = false) : splitFraction ('.' :: (digits ++ rest)) = ('.' :: digits, rest) := by
  rw [splitFraction, if_pos (startsDigit_of_digits hd hne), splitDigits_of_digits hd hr]

theorem splitExponent_of_digits {sign : Char} (hs : sign = '+' ∨ sign = '-') (hd : ∀ c ∈ digits, isDigit c = true)
    (hne : digits ≠ []) (hr : startsDigit rest = false) :
    splitExponent ('e' :: sign :: (digits ++ rest)) = ('e' :: sign :: digits, rest) := by
  have hsign : splitSign (sign :: (digits ++ rest)) = ([sign], digits ++ rest) := by
    rcases hs with rfl | rfl <;> rfl
  rw [splitExponent, hsign]
  simp only [startsDigit_of_digits hd hne, splitDigits_of_digits hd hr]
  rfl

end Timeline.Text
