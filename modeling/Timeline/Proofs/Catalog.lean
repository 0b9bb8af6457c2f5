import Timeline.Catalog

/-! What many entries make of a catalog.

`enterAll` enters values under names, one after the other. Its names are the distinct names in
the order of first use (`names_enterAll`), and what stands under a name depends on the values
of that name alone, joined in order (`get?_enterAll`). Whatever a catalog holds can be read
back from its names and `get?` (`entries_eq_map`). -/
namespace Timeline.Catalog

variable {α : Type}

/-- Enters values under names. A value under a name that was used before is joined to what stands there. -/
def enterAll (join : α → α → α) (c : Catalog α) (pairs : List (String × α)) : Catalog α :=
  pairs.foldl (fun c pair => c.enter pair.1 pair.2 (join · pair.2)) c

/-- The values under a name. -/
def valuesOf (name : String) (pairs : List (String × α)) : List α :=
  (pairs.filter fun pair => pair.1 = name).map Prod.snd

/-- One more value for what stands under a name, if anything does. -/
def joinOne (join : α → α → α) (earlier : Option α) (value : α) : Option α :=
  some (earlier.elim value (join · value))

theorem names_enterAll (join : α → α → α) (c : Catalog α) (pairs : List (String × α)) :
    (c.enterAll join pairs).names =
      c.names ++ ((pairs.map Prod.fst).filter fun name => name ∉ c.names).eraseDups := by
  induction pairs generalizing c with
  | nil => simp [enterAll]
  | cons pair rest ih =>
    obtain ⟨name, value⟩ := pair
    show ((c.enter name value (join · value)).enterAll join rest).names = _
    rw [ih, names_enter]
    by_cases h : name ∈ c.names
    · rw [if_pos h, List.map_cons, List.filter_cons_of_neg (by simpa using h)]
    · rw [if_neg h, List.map_cons, List.filter_cons_of_pos (by simpa using h), List.eraseDups_cons,
        List.append_assoc, List.filter_filter, List.singleton_append]
      congr 3
      apply List.filter_congr
      intro other _
      simp only [List.mem_append, List.mem_singleton, not_or, Bool.decide_and]
      by_cases ho : other = name <;> simp [ho]

theorem get?_enterAll (join : α → α → α) (c : Catalog α) (pairs : List (String × α)) (name : String) :
    (c.enterAll join pairs).get? name = (valuesOf name pairs).foldl (joinOne join) (c.get? name) := by
  induction pairs generalizing c with
  | nil => rfl
  | cons pair rest ih =>
    obtain ⟨other, value⟩ := pair
    show ((c.enter other value (join · value)).enterAll join rest).get? name = _
    rw [ih, get?_enter]
    by_cases h : name = other
    · subst h
      simp [valuesOf, joinOne]
    · rw [if_neg h]
      simp [valuesOf, Ne.symm h]

/-! ### What a catalog holds -/

/-- A catalog is told by its names and what stands under them. -/
theorem entries_eq_map (c : Catalog α) (f : String → α)
    (h : ∀ name value, c.get? name = some value → value = f name) :
    c.entries = c.names.map fun name => (name, f name) := by
  rw [names, List.map_map]
  refine (List.map_id _).symm.trans (List.map_congr_left ?_)
  intro entry hm
  obtain ⟨name, value⟩ := entry
  have hv := h name value ((c.get?_eq_some_iff name value).mpr hm)
  simp [hv]

theorem ext_get? [Inhabited α] {a b : Catalog α} (hn : a.names = b.names)
    (hg : ∀ name, a.get? name = b.get? name) : a = b := by
  have hmap : ∀ c : Catalog α, c.entries = c.names.map fun name => (name, (c.get? name).getD default) := by
    intro c
    refine c.entries_eq_map _ fun name value hv => ?_
    rw [hv, Option.getD_some]
  apply ext_entries
  rw [hmap a, hmap b, hn]
  simp only [hg]

end Timeline.Catalog
