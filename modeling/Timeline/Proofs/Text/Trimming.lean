import Timeline.Text.WhiteSpace

/-! What trimming takes away.

White space at both ends of a trimmed text (`trim_between`), and nothing else: what is trimmed to nothing is
white space (`isWhiteSpace_of_trim`). -/
namespace Timeline.Text

/-- Text without white space at either end. -/
structure IsTrimmed (cs : List Char) : Prop where
  head : ∀ c ∈ cs.head?, isWhiteSpace c = false
  last : ∀ c ∈ cs.getLast?, isWhiteSpace c = false

theorem trimStart_of_head {cs : List Char} (h : ∀ c ∈ cs.head?, isWhiteSpace c = false) : trimStart cs = cs := by
  apply trimStart_eq_self
  cases cs with
  | nil => rfl
  | cons c cs => simp [h c rfl]

theorem trimStart_append {lead : List Char} (h : ∀ c ∈ lead, isWhiteSpace c = true) (cs : List Char) :
    trimStart (lead ++ cs) = trimStart cs := List.dropWhile_append_of_pos h

theorem trimEnd_append {trail : List Char} (h : ∀ c ∈ trail, isWhiteSpace c = true) (cs : List Char) :
    trimEnd (cs ++ trail) = trimEnd cs := by
  rw [trimEnd, List.reverse_append, trimStart_append, trimEnd]
  exact fun c hc => h c (List.mem_reverse.mp hc)

theorem IsTrimmed.trimEnd {cs : List Char} (h : IsTrimmed cs) : trimEnd cs = cs := by
  rw [Text.trimEnd, trimStart_of_head, List.reverse_reverse]
  intro c hc
  rw [List.head?_reverse] at hc
  exact h.last c hc

theorem IsTrimmed.trim {cs : List Char} (h : IsTrimmed cs) : trim cs = cs := by
  rw [Text.trim, trimStart_of_head h.head, h.trimEnd]

/-- Text between two texts without white space at their ends. -/
theorem IsTrimmed.around {a b : List Char} (ha : IsTrimmed a) (hane : a ≠ []) (hb : IsTrimmed b) (hbne : b ≠ [])
    (middle : List Char) : IsTrimmed (a ++ (middle ++ b)) := by
  refine ⟨?_, ?_⟩
  · intro c hc
    rw [List.head?_append, List.head?_eq_some_head hane, Option.some_or] at hc
    exact ha.head c (by rwa [List.head?_eq_some_head hane])
  · intro c hc
    rw [List.getLast?_append, List.getLast?_append, List.getLast?_eq_some_getLast hbne, Option.some_or,
      Option.some_or] at hc
    exact hb.last c (by rwa [List.getLast?_eq_some_getLast hbne])

theorem trim_between {lead cs trail : List Char} (hlead : ∀ c ∈ lead, isWhiteSpace c = true) (h : IsTrimmed cs)
    (htrail : ∀ c ∈ trail, isWhiteSpace c = true) : trim (lead ++ (cs ++ trail)) = cs := by
  rw [trim, trimStart_append hlead]
  cases cs with
  | nil =>
    have hnil : trimStart trail = [] := by simpa [trimStart] using trimStart_append htrail []
    rw [List.nil_append, hnil]
    rfl
  | cons c cs => rw [trimStart_of_head (by simpa using h.head), trimEnd_append htrail, h.trimEnd]

theorem isWhiteSpace_of_trimStart {cs : List Char} (h : trimStart cs = []) : ∀ c ∈ cs, isWhiteSpace c = true := by
  have htake := cs.takeWhile_append_dropWhile (p := isWhiteSpace)
  rw [show cs.dropWhile isWhiteSpace = [] from h, List.append_nil] at htake
  have hall := List.all_eq_true.mp (List.all_takeWhile (p := isWhiteSpace) (l := cs))
  rwa [htake] at hall

/-- Nothing but white space is trimmed to nothing. -/
theorem isWhiteSpace_of_trim {cs : List Char} (h : trim cs = []) : ∀ c ∈ cs, isWhiteSpace c = true := by
  have hall := isWhiteSpace_of_trimStart (List.reverse_eq_nil_iff.mp h)
  have hhead := head?_trimStart cs
  refine isWhiteSpace_of_trimStart ?_
  cases hs : trimStart cs with
  | nil => rfl
  | cons c rest =>
    rw [hs] at hall hhead
    simp [hall c (by simp)] at hhead

end Timeline.Text
