import Mathlib.Data.List.Induction
import Timeline.Animation.Frame
import Timeline.Proofs.Catalog

/-! What many insertions make of properties.

The distinct properties stand in the order of their first insertion, each with the value of its last one
(`names_ofPairs`, `get?_ofPairs`). The pairs that insertions come to are as good as all that were inserted
(`insertAll_entries`): a property that has its place can get its new value before or after the others
(`insert_comm`), and its earlier values leave nothing behind (`insert_insert`). `ofPairs_laws` puts the laws
together. -/
namespace Timeline.Animation.Properties

open Catalog (enterAll valuesOf)
open Sheet (Declaration)

/-! ### One insertion -/

theorem names_insert (properties : Properties) (property value : String) :
    (properties.insert property value).names =
      if property ∈ properties.names then properties.names else properties.names ++ [property] :=
  properties.names_enter property value fun _ => value

theorem get?_insert (properties : Properties) (property other value : String) :
    (properties.insert property value).get? other =
      if other = property then some value else properties.get? other := by
  rw [insert, Catalog.get?_enter]
  cases properties.get? property <;> rfl

theorem mem_names_insert (properties : Properties) (property value : String) :
    property ∈ (properties.insert property value).names := by
  rw [names_insert]
  split
  · assumption
  · simp

/-- No property is lost. -/
theorem mem_names_of_mem {properties : Properties} {property : String} (h : property ∈ properties.names)
    (other value : String) : property ∈ (properties.insert other value).names := by
  rw [names_insert]
  split
  · exact h
  · exact List.mem_append_left _ h

theorem insert_insert (properties : Properties) (property first last : String) :
    (properties.insert property first).insert property last = properties.insert property last := by
  apply Catalog.ext_get?
  · rw [names_insert, if_pos (mem_names_insert properties property first), names_insert, names_insert]
  · intro other
    simp only [get?_insert]
    split <;> rfl

/-- Where a property has its place already, it does not matter whether it gets its new value before or
after another property. -/
theorem insert_comm {properties : Properties} {property other : String} (hmem : property ∈ properties.names)
    (hne : other ≠ property) (value theirs : String) :
    (properties.insert property value).insert other theirs =
      (properties.insert other theirs).insert property value := by
  apply Catalog.ext_get?
  · rw [names_insert _ property, if_pos (mem_names_of_mem hmem other theirs)]
    simp only [names_insert, if_pos hmem]
  · intro name
    simp only [get?_insert]
    by_cases hp : name = property
    · rw [if_pos hp, if_pos hp, if_neg fun ho => hne (ho.symm.trans hp)]
    · rw [if_neg hp, if_neg hp]

/-! ### Many insertions -/

/-- Inserts pairs, one after the other. -/
def insertAll (properties : Properties) (pairs : List (String × String)) : Properties :=
  pairs.foldl (fun properties pair => properties.insert pair.1 pair.2) properties

/-- The properties that pairs come to. -/
def ofPairs (pairs : List (String × String)) : Properties := insertAll Catalog.empty pairs

variable (properties : Properties) (pairs more : List (String × String))

theorem insertAll_append : properties.insertAll (pairs ++ more) = (properties.insertAll pairs).insertAll more :=
  List.foldl_append

theorem merge_eq_ofPairs (declarations : List Declaration) :
    merge declarations = ofPairs (declarations.map fun d => (d.property, d.value)) := by
  rw [ofPairs, insertAll, List.foldl_map]
  rfl

theorem names_ofPairs : (ofPairs pairs).names = (pairs.map Prod.fst).eraseDups := by
  have hall : (pairs.map Prod.fst).filter (fun name => name ∉ (Catalog.empty : Properties).names) =
      pairs.map Prod.fst := List.filter_eq_self.mpr (by simp [Catalog.names, Catalog.empty])
  show (enterAll (fun _ value => value) Catalog.empty pairs).names = _
  rw [Catalog.names_enterAll, hall]
  rfl

theorem get?_ofPairs (property : String) :
    (ofPairs pairs).get? property = (valuesOf property pairs).getLast? := by
  show (enterAll (fun _ value => value) Catalog.empty pairs).get? property = _
  rw [Catalog.get?_enterAll, Catalog.get?_empty]
  induction valuesOf property pairs using List.reverseRecOn with
  | nil => rfl
  | append_singleton values value _ =>
    rw [List.foldl_append, List.getLast?_concat, List.foldl_cons, List.foldl_nil, Catalog.joinOne]
    cases values.foldl _ none <;> rfl

/-! ### Inserting what was inserted elsewhere -/

/-- A new value for a property that has its place can come before pairs that do not name it. -/
theorem insertAll_insert {properties : Properties} {property : String} (hmem : property ∈ properties.names)
    {pairs : List (String × String)} (hnot : property ∉ pairs.map Prod.fst) (value : String) :
    (properties.insertAll pairs).insert property value = (properties.insert property value).insertAll pairs := by
  induction pairs generalizing properties with
  | nil => rfl
  | cons pair rest ih =>
    rw [List.map_cons, List.mem_cons, not_or] at hnot
    show ((properties.insert pair.1 pair.2).insertAll rest).insert property value =
      ((properties.insert property value).insert pair.1 pair.2).insertAll rest
    rw [ih (mem_names_of_mem hmem pair.1 pair.2) hnot.2, insert_comm hmem (Ne.symm hnot.1)]

/-- A new value in its place among the pairs, or after them all. -/
theorem insertAll_modify {entries : List (String × String)} (hn : (entries.map Prod.fst).Nodup) {place : Nat}
    {property : String} (hplace : entries[place]?.map Prod.fst = some property) (value : String) :
    properties.insertAll (entries.modify place fun entry => (entry.1, value)) =
      (properties.insertAll entries).insert property value := by
  induction entries generalizing properties place with
  | nil => cases hplace
  | cons entry rest ih =>
    rw [List.map_cons, List.nodup_cons] at hn
    cases place with
    | zero =>
      obtain rfl : entry.1 = property := by simpa using hplace
      show (properties.insert entry.1 value).insertAll rest =
        ((properties.insert entry.1 entry.2).insertAll rest).insert entry.1 value
      rw [insertAll_insert (mem_names_insert properties entry.1 entry.2) hn.1, insert_insert]
    | succ place =>
      rw [List.modify_succ_cons]
      exact ih (properties.insert entry.1 entry.2) hn.2 (by simpa using hplace)

/-- To insert the entries after one more insertion is one more insertion after the entries. -/
theorem insertAll_entries_insert (theirs : Properties) (property value : String) :
    properties.insertAll (theirs.insert property value).entries =
      (properties.insertAll theirs.entries).insert property value := by
  unfold insert Catalog.enter
  split
  · rename_i place hplace
    exact insertAll_modify properties theirs.names_nodup ((theirs.tells property place).mp hplace) value
  · exact insertAll_append properties theirs.entries [(property, value)]

/-- The pairs that insertions come to are as good as all that were inserted. -/
theorem insertAll_entries : properties.insertAll (ofPairs pairs).entries = properties.insertAll pairs := by
  induction pairs using List.reverseRecOn with
  | nil => rfl
  | append_singleton pairs pair ih =>
    rw [insertAll_append, ← ih, ofPairs, insertAll_append]
    exact insertAll_entries_insert properties (ofPairs pairs) pair.1 pair.2

/-! ### The laws -/

/-- Properties are what pairs come to that were inserted one after the other. -/
structure Summarizes (pairs : List (String × String)) (properties : Properties) : Prop where
  /-- The index tells the place of every property, and of nothing else. -/
  index : ∀ (property : String) (place : Nat),
    properties.index.place? property = some place ↔ properties.entries[place]?.map Prod.fst = some property
  /-- No property has two places. -/
  nodup : (properties.entries.map Prod.fst).Nodup
  /-- The properties stand in the order of their first insertion. -/
  order : properties.entries.map Prod.fst = (pairs.map Prod.fst).eraseDups
  /-- Each one stands with the value of its last insertion. -/
  last : ∀ property value,
    (property, value) ∈ properties.entries → (valuesOf property pairs).getLast? = some value
  get? : ∀ property, properties.get? property = (valuesOf property pairs).getLast?
  absent : ∀ property, properties.get? property = none ↔ property ∉ pairs.map Prod.fst
  size : properties.size = properties.entries.length
  isEmpty : properties.isEmpty = true ↔ properties.entries = []

theorem summarizes_ofPairs : Summarizes pairs (ofPairs pairs) where
  index := (ofPairs pairs).tells
  nodup := (ofPairs pairs).names_nodup
  order := names_ofPairs pairs
  last property value hm := by
    rw [← get?_ofPairs]
    exact (Catalog.get?_eq_some_iff _ property value).mpr hm
  get? := get?_ofPairs pairs
  absent property := by
    rw [Catalog.get?_eq_none_iff, names_ofPairs, List.mem_eraseDups]
  size := rfl
  isEmpty := List.isEmpty_iff

/-- **Laws of properties**: any insertions into no properties leave the distinct properties in the order of their
first insertion, each with its last value, and an index of their places. The pairs tell whether two such runs come
to the same. Declarations are inserted in their order, and where they are cut in two, it is enough to
insert what each part comes to. -/
theorem ofPairs_laws :
    (∀ pairs, Summarizes pairs (ofPairs pairs)) ∧
    (∀ pairs more, ofPairs pairs = ofPairs more ↔ (ofPairs pairs).entries = (ofPairs more).entries) ∧
    (∀ declarations : List Declaration,
      merge declarations = ofPairs (declarations.map fun d => (d.property, d.value))) ∧
    ∀ earlier later : List Declaration,
      merge (earlier ++ later) = ofPairs ((merge earlier).entries ++ (merge later).entries) := by
  refine ⟨summarizes_ofPairs, fun pairs more => ⟨congrArg Catalog.entries, Catalog.ext_entries⟩,
    merge_eq_ofPairs, fun earlier later => ?_⟩
  rw [merge_eq_ofPairs, merge_eq_ofPairs earlier, merge_eq_ofPairs later, List.map_append, ofPairs, ofPairs,
    insertAll_append, insertAll_append, insertAll_entries, insertAll_entries]

end Timeline.Animation.Properties
