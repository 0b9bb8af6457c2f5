import Timeline.Text.Utf8

/-! Bytes and characters at the same place.

A place that is the size of some characters in front is one at which the text can be cut (`splitAt?_utf8`). A
character outside of ASCII has no byte of ASCII, so at such a place the bytes show the same as the
characters, if only characters of ASCII are looked for (`standsAt_utf8`, `endOf_utf8`). -/
namespace Timeline.Text

theorem utf8_cons (c : Char) (cs : List Char) : utf8 (c :: cs) = String.utf8EncodeChar c ++ utf8 cs := List.flatMap_cons

theorem utf8_append (a b : List Char) : utf8 (a ++ b) = utf8 a ++ utf8 b := List.flatMap_append

theorem length_utf8_cons (c : Char) (cs : List Char) : (utf8 (c :: cs)).length = c.utf8Size + (utf8 cs).length := by
  rw [utf8_cons, List.length_append, String.length_utf8EncodeChar]

theorem splitAt?_cons (c : Char) (cs : List Char) (n : Nat) :
    splitAt? (c :: cs) (c.utf8Size + n) = (splitAt? cs n).map fun (front, back) => (c :: front, back) := by
  obtain ⟨size, hsize⟩ := Nat.exists_eq_succ_of_ne_zero (Nat.ne_of_gt c.utf8Size_pos)
  rw [hsize, Nat.succ_add, splitAt?, hsize, if_pos (by omega)]
  congr 2
  omega

/-- Between two characters a text is cut. -/
theorem splitAt?_utf8 (front back : List Char) : splitAt? (front ++ back) (utf8 front).length = some (front, back) := by
  induction front with
  | nil => cases back <;> rfl
  | cons c cs ih =>
    rw [List.cons_append, length_utf8_cons, splitAt?_cons, ih]
    rfl

/-! ### Characters of ASCII -/

/-- A class of characters of ASCII. -/
def IsAscii (p : Char → Bool) : Prop := ∀ c, p c = true → c.toNat < 0x80

theorem toNat_ofNat_toNat (b : UInt8) : (Char.ofNat b.toNat).toNat = b.toNat := by
  have hvalid : b.toNat.isValidChar := .inl (Nat.lt_trans b.toNat_lt (by decide))
  rw [Char.ofNat, dif_pos hvalid]
  rfl

theorem first_of_not_ascii {c : Char} (hc : 0x80 ≤ c.toNat) :
    ∃ b more, String.utf8EncodeChar c = b :: more ∧ 0x80 ≤ b.toNat := by
  have hlarge : ¬c.val.toNat ≤ 0x7f := Nat.not_le_of_lt hc
  fun_cases String.utf8EncodeChar c with
  | case1 v h => exact absurd h hlarge
  | case2 => exact ⟨_, _, rfl, by rw [UInt8.toNat_ofNat']; omega⟩
  | case3 => exact ⟨_, _, rfl, by rw [UInt8.toNat_ofNat']; omega⟩
  | case4 => exact ⟨_, _, rfl, by rw [UInt8.toNat_ofNat']; omega⟩

variable {p : Char → Bool} (hp : IsAscii p)

include hp

/-- The first byte of a character shows whether it is one of the class, and then is the only one. -/
theorem first_utf8EncodeChar (c : Char) :
    ∃ b more, String.utf8EncodeChar c = b :: more ∧ p (Char.ofNat b.toNat) = p c ∧ (p c = true → more = []) := by
  rcases Nat.lt_or_ge c.toNat 0x80 with hc | hc
  · refine ⟨UInt8.ofNat c.toNat, [], if_pos (Nat.le_of_lt_succ hc), ?_, fun _ => rfl⟩
    rw [UInt8.toNat_ofNat', Nat.mod_eq_of_lt (by omega), Char.ofNat_toNat]
  · have hno : ∀ d : Char, 0x80 ≤ d.toNat → p d = false := fun d hd =>
      Bool.eq_false_iff.mpr fun h => Nat.not_lt_of_le hd (hp d h)
    obtain ⟨b, more, hb, hlarge⟩ := first_of_not_ascii hc
    refine ⟨b, more, hb, ?_, fun h => absurd h (by simp [hno c hc])⟩
    rw [hno _ (by rw [toNat_ofNat_toNat]; exact hlarge), hno c hc]

theorem takeWhile_utf8 (cs : List Char) :
    (utf8 cs).takeWhile (fun b => p (Char.ofNat b.toNat)) = utf8 (cs.takeWhile p) := by
  induction cs with
  | nil => rfl
  | cons c cs ih =>
    obtain ⟨b, more, hb, hclass, honly⟩ := first_utf8EncodeChar hp c
    rw [utf8_cons, hb, List.cons_append, List.takeWhile_cons, List.takeWhile_cons, hclass]
    split
    · rename_i hc
      rw [utf8_cons, hb, honly hc, List.nil_append, ih]
      rfl
    · rfl

/-- Behind some characters in front, a byte of the class is a character of the class. -/
theorem standsAt_utf8 (front back : List Char) :
    standsAt p (utf8 (front ++ back)) (utf8 front).length = back.head?.any p := by
  rw [standsAt, utf8_append, List.getElem?_append_right (Nat.le_refl _), Nat.sub_self]
  cases back with
  | nil => rfl
  | cons c cs =>
    obtain ⟨b, more, hb, hclass, -⟩ := first_utf8EncodeChar hp c
    rw [utf8_cons, hb]
    exact hclass

/-- Behind some characters in front, the bytes of the class end where the characters of the class end. -/
theorem endOf_utf8 (front back : List Char) :
    endOf p (utf8 (front ++ back)) (utf8 front).length = (utf8 (front ++ back.takeWhile p)).length := by
  rw [endOf, utf8_append, List.drop_left, takeWhile_utf8 hp, utf8_append, List.length_append]

end Timeline.Text
