import Mathlib.Tactic.SplitIfs
import Timeline.Proofs.Json.Reader

/-! Strings are read as they were written.

Every character stands for itself, stands behind a backslash as a mark, or is given by its number
(`Escaped`). In each of the three forms the reader takes it for what it was, so that what stands between
the quotes of a text is the text (`unquoted?_escaped`). -/
namespace Timeline.Json

/-- The forms in which a character stands between quotes. -/
inductive Escaped (c : Char) : List Char → Prop
  | marked (mark : Char) (h : units?.marked? mark = some c) : Escaped c ['\\', mark]
  | numbered (hc : c.toNat < 0x20) :
    Escaped c ['\\', 'u', '0', '0', hexDigit (c.toNat / 16), hexDigit (c.toNat % 16)]
  | plain (hquote : c ≠ '"') (hbackslash : c ≠ '\\') (hc : ¬ c.toNat < 0x20) : Escaped c [c]

theorem escaped_spec (c : Char) : Escaped c (escaped c) := by
  unfold escaped
  split_ifs with hquote hbackslash hb hf hn hr ht hc
  · exact .marked '"' (by rw [hquote]; rfl)
  · exact .marked '\\' (by rw [hbackslash]; rfl)
  · exact .marked 'b' (by rw [hb]; rfl)
  · exact .marked 'f' (by rw [hf]; rfl)
  · exact .marked 'n' (by rw [hn]; rfl)
  · exact .marked 'r' (by rw [hr]; rfl)
  · exact .marked 't' (by rw [ht]; rfl)
  · exact .numbered hc
  · exact .plain hquote hbackslash hc

/-! ### Units -/

theorem hexDigitValue?_hexDigit : ∀ n < 16, units?.hexDigitValue? (hexDigit n) = some n := by decide

/-- Controls are written by their number, with two digits that count. -/
theorem hexNumber?_control {n : Nat} (hn : n < 0x20) :
    units?.hexNumber? ['0', '0', hexDigit (n / 16), hexDigit (n % 16)] = some n := by
  have hz : units?.hexDigitValue? '0' = some 0 := by decide
  have hhigh := hexDigitValue?_hexDigit (n / 16) (by omega)
  have hlow := hexDigitValue?_hexDigit (n % 16) (by omega)
  simp only [units?.hexNumber?, List.foldlM_cons, List.foldlM_nil, hz, hhigh, hlow, Option.map_some,
    Option.bind_eq_bind, Option.bind_some, Option.pure_def, Option.some.injEq]
  omega

theorem units?_append {c : Char} {text : List Char} (h : Escaped c text) (rest : List Char) :
    units? (text ++ rest) = (units? rest).map (c.toNat :: ·) := by
  cases h with
  | marked mark hm =>
    have hu : mark ≠ 'u' := by
      intro he
      rw [he] at hm
      cases hm
    show units? ('\\' :: mark :: rest) = _
    rw [units?, hm]
    intro a b c d cs he
    exact absurd he hu
  | numbered hc =>
    show units? ('\\' :: 'u' :: '0' :: '0' :: hexDigit (c.toNat / 16) :: hexDigit (c.toNat % 16) :: rest) = _
    rw [units?, hexNumber?_control hc]
  | plain hquote hbackslash hc =>
    show units? (c :: rest) = _
    rw [units?, if_neg (by simp [hquote, hbackslash, hc])]
    · intro a b c d cs he
      exact absurd he hbackslash
    · intro mark cs he
      exact absurd he hbackslash

theorem units?_flatMap_escaped (cs : List Char) : units? (cs.flatMap escaped) = some (cs.map Char.toNat) := by
  induction cs with
  | nil => rfl
  | cons c cs ih => rw [List.flatMap_cons, units?_append (escaped_spec c), ih, Option.map_some, List.map_cons]

/-! ### Characters -/

/-- No character has the number of a surrogate. -/
theorem not_surrogate (c : Char) : (isHighSurrogate c.toNat || isLowSurrogate c.toNat) = false := by
  have hv : c.toNat < 0xd800 ∨ 0xdfff < c.toNat ∧ c.toNat < 0x110000 := c.valid
  simp only [isHighSurrogate, isLowSurrogate, Bool.or_eq_false_iff, Bool.and_eq_false_iff, decide_eq_false_iff_not]
  omega

theorem characters?_map_toNat (cs : List Char) : characters? (cs.map Char.toNat) = some cs := by
  induction cs with
  | nil => rfl
  | cons c cs ih =>
    have hc := not_surrogate c
    have hhigh := (Bool.or_eq_false_iff.mp hc).1
    cases cs with
    | nil => simp [characters?, hc]
    | cons d cs =>
      rw [List.map_cons, List.map_cons, characters?, hhigh, Bool.false_and, if_neg Bool.false_ne_true,
        if_neg (by simpa [hhigh] using hc), ← List.map_cons, ih, Option.map_some, Char.ofNat_toNat]

theorem unquoted?_escaped (text : String) : unquoted? (text.toList.flatMap escaped) = some text := by
  rw [unquoted?, units?_flatMap_escaped, Option.bind_some, characters?_map_toNat, Option.map_some,
    String.ofList_toList]

/-! ### Between the quotes -/

namespace State

variable (stack : List Open) (members? : Option (List (String × Value)))

/-- No form of a character ends the string or leaves a backslash open. -/
theorem run_escaped {c : Char} {text : List Char} (h : Escaped c text) (raw : List Char) :
    run ⟨stack, .quoted members? raw false⟩ text = some ⟨stack, .quoted members? (raw ++ text) false⟩ := by
  have plain : ∀ (raw : List Char) (d : Char), d ≠ '"' → d ≠ '\\' →
      step ⟨stack, .quoted members? raw false⟩ d = some ⟨stack, .quoted members? (raw ++ [d]) false⟩ := by
    intro raw d hquote hbackslash
    simp [step, hquote, hbackslash]
  have hex : ∀ n < 16, hexDigit n ≠ '"' ∧ hexDigit n ≠ '\\' := by decide
  cases h with
  | marked mark => simp [step]
  | numbered hc =>
    have hhigh := hex (c.toNat / 16) (by omega)
    have hlow := hex (c.toNat % 16) (by omega)
    simp [step, hhigh, hlow]
  | plain hquote hbackslash => simp [plain raw c hquote hbackslash]

theorem run_flatMap_escaped (cs raw : List Char) :
    run ⟨stack, .quoted members? raw false⟩ (cs.flatMap escaped) =
      some ⟨stack, .quoted members? (raw ++ cs.flatMap escaped) false⟩ := by
  induction cs generalizing raw with
  | nil => simp
  | cons c cs ih =>
    rw [List.flatMap_cons, run_append, run_escaped stack members? (escaped_spec c), Option.bind_some, ih,
      List.append_assoc]

/-- A string that was begun is read up to its closing quote. -/
theorem run_quoted (text : String) :
    run ⟨stack, .quoted members? [] false⟩ (text.toList.flatMap escaped ++ ['"']) =
      some ⟨stack, .ofString members? text⟩ := by
  rw [run_append, run_flatMap_escaped, Option.bind_some, List.nil_append]
  show ((unquote? stack members? (text.toList.flatMap escaped)).bind fun s => some s) = _
  rw [unquote?, unquoted?_escaped]
  rfl

end State

end Timeline.Json
