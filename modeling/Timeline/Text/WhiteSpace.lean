/-! White space, as Unicode's property of that name has it, and trimming.

`trim_idem`: a trimmed text has no white space at either end, so trimming it again changes
nothing. -/
namespace Timeline.Text

/-- The characters with the property `White_Space`. -/
def isWhiteSpace (c : Char) : Bool :=
  let n := c.toNat
  (0x09 ≤ n && n ≤ 0x0d) || n == 0x20 || n == 0x85 || n == 0xa0 || n == 0x1680 ||
    (0x2000 ≤ n && n ≤ 0x200a) || n == 0x2028 || n == 0x2029 || n == 0x202f || n == 0x205f || n == 0x3000

/-- Core's white space is part of it. -/
theorem isWhiteSpace_of_isWhitespace (c : Char) (h : c.isWhitespace = true) : isWhiteSpace c = true := by
  simp only [Char.isWhitespace, Bool.or_eq_true, decide_eq_true_eq] at h
  rcases h with ((rfl | rfl) | rfl) | rfl <;> decide

def trimStart (text : List Char) : List Char := text.dropWhile isWhiteSpace

def trimEnd (text : List Char) : List Char := (trimStart text.reverse).reverse

def trim (text : List Char) : List Char := trimEnd (trimStart text)

theorem head?_trimStart (text : List Char) : (trimStart text).head?.all (! isWhiteSpace ·) = true := by
  unfold trimStart
  induction text with
  | nil => rfl
  | cons c cs ih => by_cases h : isWhiteSpace c <;> simp [h, ih]

theorem trimStart_eq_self {text : List Char} (h : text.head?.all (! isWhiteSpace ·) = true) :
    trimStart text = text := by
  cases text <;> simp_all [trimStart]

theorem trimEnd_idem (text : List Char) : trimEnd (trimEnd text) = trimEnd text := by
  rw [trimEnd, trimEnd, List.reverse_reverse, trimStart_eq_self (head?_trimStart _)]

/-- What remains at the end is a first part of the text. -/
theorem trimEnd_append_tail (text : List Char) :
    ∃ tail, text = trimEnd text ++ tail := by
  refine ⟨(text.reverse.takeWhile isWhiteSpace).reverse, ?_⟩
  rw [trimEnd, trimStart, ← List.reverse_append, List.takeWhile_append_dropWhile, List.reverse_reverse]

theorem head?_trim (text : List Char) : (trim text).head?.all (! isWhiteSpace ·) = true := by
  obtain ⟨tail, h⟩ := trimEnd_append_tail (trimStart text)
  have hs := head?_trimStart text
  unfold trim
  cases ht : trimEnd (trimStart text) with
  | nil => rfl
  | cons c cs => rw [h, ht] at hs; simpa using hs

theorem trim_idem (text : List Char) : trim (trim text) = trim text := by
  show trimEnd (trimStart (trim text)) = trim text
  rw [trimStart_eq_self (head?_trim text)]
  exact trimEnd_idem _

end Timeline.Text
