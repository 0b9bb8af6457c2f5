import Std.Data.ExtTreeMap

/-! Entries under names, in the order in which the names were first used.

No name has two entries. Entering a name again changes its entry where it stands. Beside the entries is an
index of their places, so that the entry of a name is found without going through the others. -/
namespace Timeline

/-- Places of names. -/
abbrev Index := Std.ExtTreeMap String Nat

namespace Index

def empty : Index := ∅

def place? (index : Index) (name : String) : Option Nat := index[name]?

def put (index : Index) (name : String) (place : Nat) : Index := index.insert name place

theorem place?_empty (name : String) : empty.place? name = none := Std.ExtTreeMap.getElem?_empty

theorem place?_put (index : Index) (name other : String) (place : Nat) :
    (index.put name place).place? other = if other = name then some place else index.place? other := by
  unfold place? put
  rw [Std.ExtTreeMap.getElem?_insert]
  simp only [Std.LawfulEqCmp.compare_eq_iff_eq, @eq_comm _ name other]

theorem ext_place? {a b : Index} (h : ∀ name, a.place? name = b.place? name) : a = b :=
  Std.ExtTreeMap.ext_getElem? h

variable {α : Type} {index : Index} {entries : List (String × α)}

/-- An index of entries tells the place of every name, and of nothing else. -/
def Tells (index : Index) (entries : List (String × α)) : Prop :=
  ∀ (name : String) (place : Nat), index.place? name = some place ↔ entries[place]?.map Prod.fst = some name

theorem tells_empty : empty.Tells ([] : List (String × α)) := by
  intro name place
  simp [place?_empty]

/-- A change to the entry in some place leaves all places. -/
theorem Tells.modify (h : index.Tells entries) (changed : Nat) (change : α → α) :
    index.Tells (entries.modify changed fun entry => (entry.1, change entry.2)) := by
  intro name place
  rw [h name place, List.getElem?_modify]
  cases entries[place]? with
  | none => rfl
  | some entry => by_cases hp : changed = place <;> simp [hp]

/-- A name that has no place gets the next one. -/
theorem Tells.append (h : index.Tells entries) {name : String} (hnew : index.place? name = none) (x : α) :
    (index.put name entries.length).Tells (entries ++ [(name, x)]) := by
  intro other place
  rw [place?_put]
  rcases Nat.lt_trichotomy place entries.length with hp | rfl | hp
  · -- An earlier place: it is that of another name.
    rw [List.getElem?_append_left hp, ← h other place]
    by_cases ho : other = name
    · subst ho
      simp [hnew, Nat.ne_of_gt hp]
    · simp [ho]
  · have hend : index.place? other ≠ some entries.length := by simp [h other]
    by_cases ho : other = name
    · simp [ho]
    · simp [ho, hend, Ne.symm ho]
  · have hbeyond : index.place? other ≠ some place := by
      simp [h other, List.getElem?_eq_none (Nat.le_of_lt hp)]
    have hlength : (entries ++ [(name, x)])[place]? = none :=
      List.getElem?_eq_none (by rw [List.length_append]; exact hp)
    rw [hlength]
    by_cases ho : other = name <;> simp [ho, hbeyond, Nat.ne_of_lt hp]

/-- No name has two places. -/
theorem Tells.nodup (h : index.Tells entries) : (entries.map Prod.fst).Nodup := by
  have hplace : ∀ (i : Nat) (hi : i < (entries.map Prod.fst).length),
      index.place? (entries.map Prod.fst)[i] = some i := by
    intro i hi
    rw [h, ← List.getElem?_map]
    exact List.getElem?_eq_getElem hi
  refine List.pairwise_iff_getElem.mpr fun i j hi hj hlt heq => ?_
  have hij := hplace i hi
  rw [heq, hplace j hj] at hij
  exact Nat.ne_of_gt hlt (Option.some.inj hij)

theorem Tells.eq_none_iff (h : index.Tells entries) (name : String) :
    index.place? name = none ↔ name ∉ entries.map Prod.fst := by
  rw [List.mem_iff_getElem?, Option.eq_none_iff_forall_ne_some]
  simp only [List.getElem?_map, not_exists, ne_eq, h name]

/-- The index is a function of the entries. -/
theorem Tells.unique {other : Index} (h : index.Tells entries) (ho : other.Tells entries) : index = other :=
  ext_place? fun name => Option.ext fun place => (h name place).trans (ho name place).symm

end Index

structure Catalog (α : Type) where
  entries : List (String × α)
  index : Index
  tells : index.Tells entries

namespace Catalog

variable {α : Type}

theorem ext_entries {a b : Catalog α} (h : a.entries = b.entries) : a = b := by
  obtain ⟨entries, index, ha⟩ := a
  obtain ⟨entries', index', hb⟩ := b
  obtain rfl : entries = entries' := h
  obtain rfl : index = index' := ha.unique hb
  rfl

instance [DecidableEq α] : DecidableEq (Catalog α) := fun a b =>
  if h : a.entries = b.entries then isTrue (ext_entries h)
  else isFalse fun he => h (congrArg entries he)

def empty : Catalog α := ⟨[], .empty, Index.tells_empty⟩

def names (c : Catalog α) : List String := c.entries.map Prod.fst

theorem names_nodup (c : Catalog α) : c.names.Nodup := c.tells.nodup

def size (c : Catalog α) : Nat := c.entries.length

def isEmpty (c : Catalog α) : Bool := c.entries.isEmpty

/-- The entry of a name, found in its place. -/
def get? (c : Catalog α) (name : String) : Option α :=
  (c.index.place? name).bind fun place => c.entries[place]?.map Prod.snd

theorem get?_empty (name : String) : (empty : Catalog α).get? name = none := by
  rw [get?, empty, Index.place?_empty, Option.bind_none]

/-- Enters `fresh` under a name that has no entry yet, and changes the entry of any other. -/
def enter (c : Catalog α) (name : String) (fresh : α) (again : α → α) : Catalog α :=
  match h : c.index.place? name with
  | some place =>
    ⟨c.entries.modify place fun entry => (entry.1, again entry.2), c.index, c.tells.modify place again⟩
  | none => ⟨c.entries ++ [(name, fresh)], c.index.put name c.entries.length, c.tells.append h fresh⟩

theorem names_modify (entries : List (String × α)) (place : Nat) (change : α → α) :
    (entries.modify place fun entry => (entry.1, change entry.2)).map Prod.fst = entries.map Prod.fst := by
  refine List.ext_getElem? fun i => ?_
  rw [List.getElem?_map, List.getElem?_map, List.getElem?_modify]
  cases entries[i]? with
  | none => rfl
  | some entry => by_cases hi : place = i <;> simp [hi]

theorem names_enter (c : Catalog α) (name : String) (fresh : α) (again : α → α) :
    (c.enter name fresh again).names = if name ∈ c.names then c.names else c.names ++ [name] := by
  unfold enter
  split
  · rename_i place hplace
    have hmem : name ∈ c.names := by
      rw [names, List.mem_iff_getElem?]
      exact ⟨place, by rw [List.getElem?_map, (c.tells name place).mp hplace]⟩
    rw [if_pos hmem]
    exact names_modify c.entries place again
  · rename_i hnone
    have hnot : name ∉ c.names := (c.tells.eq_none_iff name).mp hnone
    rw [if_neg hnot]
    exact List.map_append

theorem get?_eq_some_iff (c : Catalog α) (name : String) (x : α) :
    c.get? name = some x ↔ (name, x) ∈ c.entries := by
  rw [get?, Option.bind_eq_some_iff, List.mem_iff_getElem?]
  refine exists_congr fun place => ?_
  rw [c.tells name place]
  cases c.entries[place]? with
  | none => simp
  | some entry => simp [Prod.ext_iff]

theorem get?_eq_none_iff (c : Catalog α) (name : String) : c.get? name = none ↔ name ∉ c.names := by
  rw [Option.eq_none_iff_forall_ne_some, names, List.mem_map]
  simp [get?_eq_some_iff]

theorem get?_enter (c : Catalog α) (name other : String) (fresh : α) (again : α → α) :
    (c.enter name fresh again).get? other =
      if other = name then some ((c.get? name).elim fresh again) else c.get? other := by
  unfold enter
  split
  · rename_i place hplace
    obtain ⟨entry, hentry, rfl⟩ := Option.map_eq_some_iff.mp ((c.tells _ place).mp hplace)
    by_cases ho : other = entry.1
    · subst ho
      simp [get?, hplace, hentry]
    · rw [if_neg ho]
      unfold get?
      refine Option.bind_congr fun theirs htheirs => ?_
      have hne : place ≠ theirs := by
        intro heq
        subst heq
        have hname := (c.tells other place).mp htheirs
        rw [hentry] at hname
        exact ho (Option.some.inj hname).symm
      dsimp only
      rw [List.getElem?_modify_ne _ _ hne]
  · rename_i hnone
    by_cases ho : other = name
    · subst ho
      simp [get?, hnone, Index.place?_put]
    · rw [if_neg ho]
      unfold get?
      rw [Index.place?_put, if_neg ho]
      refine Option.bind_congr fun theirs htheirs => ?_
      obtain ⟨entry, hentry, -⟩ := Option.map_eq_some_iff.mp ((c.tells other theirs).mp htheirs)
      rw [List.getElem?_append_left (List.getElem?_eq_some_iff.mp hentry).1]

end Catalog

end Timeline
