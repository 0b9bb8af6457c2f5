/-! Cutting a text at a separator.

`join_fields`: the fields, put together with the separator between them, are the text.
`fields_join`: parts without the separator, put together with it, are cut apart again. -/
namespace Timeline.Text

/-- The parts of a text between its separators; one part more than there are separators. -/
def fields (separator : Char) : List Char → List (List Char)
  | [] => [[]]
  | c :: cs =>
    if c = separator then [] :: fields separator cs
    else
      match fields separator cs with
      | [] => [[c]]
      | first :: more => (c :: first) :: more

theorem fields_eq_splitOn (separator : Char) (cs : List Char) : fields separator cs = cs.splitOn separator := by
  induction cs with
  | nil => rw [fields, List.splitOn_nil]
  | cons c cs ih =>
    rw [fields, List.splitOn_cons_eq_if_modifyHead, ih]
    by_cases h : c = separator
    · rw [if_pos h, if_pos (by simpa using h)]
    · rw [if_neg h, if_neg (by simpa using h)]
      cases hs : cs.splitOn separator with
      | nil => exact absurd hs (List.splitOn_ne_nil separator cs)
      | cons => rfl

theorem join_fields (separator : Char) (cs : List Char) :
    [separator].intercalate (fields separator cs) = cs := by
  rw [fields_eq_splitOn, List.intercalate_splitOn]

/-- Texts without separators are the fields of what they make with separators between them. -/
theorem fields_join {separator : Char} {texts : List (List Char)} (h : ∀ text ∈ texts, separator ∉ text)
    (hne : texts ≠ []) : fields separator ([separator].intercalate texts) = texts := by
  rw [fields_eq_splitOn, List.splitOn_intercalate separator h hne]

theorem fields_of_not_mem {separator : Char} {cs : List Char} (h : separator ∉ cs) : fields separator cs = [cs] := by
  rw [fields_eq_splitOn, List.splitOn_eq_singleton h]

theorem not_mem_of_mem_fields {separator : Char} {cs field : List Char} (h : field ∈ fields separator cs) :
    separator ∉ field := by
  induction cs generalizing field with
  | nil =>
    obtain rfl := List.mem_singleton.mp h
    exact List.not_mem_nil
  | cons c cs ih =>
    rw [fields] at h
    split at h
    · rcases List.mem_cons.mp h with rfl | h
      · exact List.not_mem_nil
      · exact ih h
    · rename_i hc
      split at h
      · obtain rfl := List.mem_singleton.mp h
        simpa using Ne.symm hc
      · rename_i first more hcs
        rcases List.mem_cons.mp h with rfl | h
        · have hfirst : separator ∉ first := ih (by rw [hcs]; exact List.mem_cons_self)
          exact List.not_mem_cons_of_ne_of_not_mem (Ne.symm hc) hfirst
        · exact ih (by rw [hcs]; exact List.mem_cons_of_mem _ h)

/-- Text without separators belongs to the last field of what stands in front of it. -/
theorem fields_append {separator : Char} {more : List Char} (h : separator ∉ more) (cs : List Char) :
    ∃ front last, fields separator cs = front ++ [last] ∧ fields separator (cs ++ more) = front ++ [last ++ more] := by
  induction cs with
  | nil => exact ⟨[], [], rfl, fields_of_not_mem h⟩
  | cons c cs ih =>
    obtain ⟨front, last, hcs, hmore⟩ := ih
    rw [List.cons_append]
    by_cases hc : c = separator
    · exact ⟨[] :: front, last, by rw [fields, if_pos hc, hcs]; rfl, by rw [fields, if_pos hc, hmore]; rfl⟩
    · rw [fields, if_neg hc, fields, if_neg hc, hcs, hmore]
      cases front with
      | nil => exact ⟨[], c :: last, rfl, rfl⟩
      | cons first front => exact ⟨(c :: first) :: front, last, rfl, rfl⟩

end Timeline.Text
