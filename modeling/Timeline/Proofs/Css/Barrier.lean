import Timeline.Css.Lexer

/-! Barriers.

A space, a comma, a bracket and most other characters that neither names nor numbers are made of go on
with no token before them. So where a text goes on behind such a barrier in one way or in another (`Fork`),
it begins alike in both: with a digit or not, with an escape or not, with a name or not. -/
namespace Timeline.Css

open Text (isDigit startsDigit splitSign splitDigits splitFraction splitExponent)

/-! ### Barriers -/

/-- Characters that may go on with a token before them, or make another token of it. An opening
parenthesis does so with a name alone. -/
def goesOn (c : Char) : Bool := isNameChar c || ['\\', '.', '+', '%', '*', '=', '!', '>'].contains c

/-- A text with which no token goes on. -/
def Barrier (q : List Char) : Prop := ∀ c ∈ q.head?, goesOn c = false

instance (q : List Char) : Decidable (Barrier q) :=
  decidable_of_iff (q.head?.any goesOn = false) (by cases q <;> simp [Barrier])

def startsBlank (cs : List Char) : Bool := cs.head?.any isBlank

theorem startsBlank_eq_false_iff {cs : List Char} : startsBlank cs = false ↔ ∀ c ∈ cs.head?, isBlank c = false := by
  cases cs <;> simp [startsBlank]

theorem isBlank_iff {c : Char} : isBlank c = true ↔ c = '\n' ∨ c = '\x0c' ∨ c = '\r' ∨ c = ' ' ∨ c = '\t' := by
  simp [isBlank, Text.isNewline, or_assoc]

theorem goesOn_eq_false_of_isBlank {c : Char} (h : isBlank c = true) : goesOn c = false := by
  rcases isBlank_iff.mp h with rfl | rfl | rfl | rfl | rfl <;> decide

theorem startsNewline_eq_false {cs : List Char} (h : startsBlank cs = false) : startsNewline cs = false := by
  cases cs with
  | nil => rfl
  | cons c cs =>
    have hc : isBlank c = false := h
    rw [isBlank, Bool.or_eq_false_iff, Bool.or_eq_false_iff] at hc
    exact hc.1.1

theorem span_append {k : Char → Bool} {q : List Char} (hq : ∀ c ∈ q.head?, k c = false) (p : List Char) :
    (p ++ q).takeWhile k = p.takeWhile k ∧ (p ++ q).dropWhile k = p.dropWhile k ++ q := by
  induction p with
  | nil =>
    cases q with
    | nil => exact ⟨rfl, rfl⟩
    | cons c q => simp [hq c rfl]
  | cons c p ih => by_cases hc : k c <;> simp [hc, ih]

namespace Barrier

theorem cons {c : Char} (h : goesOn c = false) (q : List Char) : Barrier (c :: q) := by
  intro d hd
  obtain rfl := Option.some.inj hd
  exact h

variable {q : List Char} (h : Barrier q)

include h

theorem head?_ne {c : Char} (hc : goesOn c = true) : q.head? ≠ some c := by
  intro hq
  rw [h c hq] at hc
  cases hc

/-- A barrier begins with no character of a class whose members all go on. -/
theorem class_eq_false {k : Char → Bool} (hk : ∀ c, k c = true → goesOn c = true) : ∀ c ∈ q.head?, k c = false := by
  intro c hc
  cases hkc : k c with
  | false => rfl
  | true => exact absurd hc (h.head?_ne (hk c hkc))

theorem isDigit_eq_false : ∀ c ∈ q.head?, isDigit c = false :=
  h.class_eq_false fun c hc => by simp [goesOn, isNameChar, hc]

theorem isNameChar_eq_false : ∀ c ∈ q.head?, isNameChar c = false :=
  h.class_eq_false fun c hc => by simp [goesOn, hc]

theorem startsDigit_append (p : List Char) : startsDigit (p ++ q) = startsDigit p := by
  cases p with
  | nil =>
    cases q with
    | nil => rfl
    | cons c q => exact h.isDigit_eq_false c rfl
  | cons => rfl

theorem cons_ne {c : Char} (hc : goesOn c = true) : ∀ rest, q = c :: rest → False := by
  intro rest hq
  exact h.head?_ne hc (by rw [hq]; rfl)

theorem head?_append_iff {c : Char} (hc : goesOn c = true) (p : List Char) :
    (p ++ q).head? = some c ↔ p.head? = some c := by
  cases p with
  | nil => exact iff_of_false (h.head?_ne hc) (by simp)
  | cons => rfl

theorem prefix_append_iff {u : List Char} (hu : ∀ c ∈ u, goesOn c = true) (p : List Char) : u <+: p ++ q ↔ u <+: p := by
  refine ⟨fun hp => ?_, fun hp => hp.trans (List.prefix_append p q)⟩
  induction u generalizing p with
  | nil => exact List.nil_prefix
  | cons c u ih =>
    rw [List.forall_mem_cons] at hu
    cases p with
    | nil =>
      obtain ⟨rest, hrest⟩ := hp
      exact absurd hrest.symm (h.cons_ne hu.1 (u ++ rest))
    | cons d p =>
      rw [List.cons_append, List.cons_prefix_cons] at hp
      rw [List.cons_prefix_cons]
      exact ⟨hp.1, ih hu.2 p hp.2⟩

theorem startsUnsigned_append (p : List Char) : startsUnsigned (p ++ q) = startsUnsigned p := by
  cases p with
  | nil =>
    rw [List.nil_append, startsUnsigned.eq_2 _ (h.cons_ne (by decide))]
    exact h.startsDigit_append []
  | cons c p =>
    by_cases hc : c = '.'
    · subst hc
      exact h.startsDigit_append p
    · have hpoint : ∀ ds rest, c :: ds = '.' :: rest → False := fun _ _ he => hc (List.cons.inj he).1
      rw [List.cons_append, startsUnsigned.eq_2 _ (hpoint _), startsUnsigned.eq_2 _ (hpoint _)]
      rfl

theorem startsIdent_eq_false : startsIdent q = false ∧ startsIdent ('-' :: q) = false := by
  cases q with
  | nil => exact ⟨rfl, rfl⟩
  | cons c q =>
    have hname : isNameChar c = false := h.isNameChar_eq_false c rfl
    have hstart : isNameStart c = false := by
      rw [isNameChar, Bool.or_eq_false_iff, Bool.or_eq_false_iff] at hname
      exact hname.1.1
    have hdash : c ≠ '-' := fun hc => h.head?_ne (c := '-') (by decide) (congrArg some hc)
    have hslash : c ≠ '\\' := fun hc => h.head?_ne (c := '\\') (by decide) (congrArg some hc)
    have hescape : startsEscape (c :: q) = false := startsEscape.eq_2 _ (h.cons_ne (by decide))
    constructor
    · rw [startsIdent.eq_2 c q (fun _ _ he => absurd he hdash), hstart, hescape]
      rfl
    · rw [startsIdent.eq_1]
      simp [hstart, hdash, hslash]

end Barrier

/-! ### Numbers in front of a barrier -/

/-- What is cut off does not depend on what stands behind a barrier. -/
def Shielded {α : Type} (f : List Char → α × List Char) : Prop :=
  ∀ (p : List Char) ⦃q : List Char⦄, Barrier q → f (p ++ q) = ((f p).1, (f p).2 ++ q)

theorem shielded_splitDigits : Shielded splitDigits := by
  intro p q h
  obtain ⟨htake, hdrop⟩ := span_append h.isDigit_eq_false p
  exact Prod.ext htake hdrop

theorem shielded_splitSign : Shielded splitSign := by
  intro p q h
  cases p with
  | nil =>
    cases q with
    | nil => rfl
    | cons c q =>
      have hplus : c ≠ '+' := fun hc => h.head?_ne (c := '+') (by decide) (congrArg some hc)
      have hminus : c ≠ '-' := fun hc => h.head?_ne (c := '-') (by decide) (congrArg some hc)
      simp [splitSign, hplus, hminus]
  | cons c p =>
    simp only [splitSign, List.cons_append]
    split <;> rfl

theorem Barrier.startsNumber_append {q : List Char} (h : Barrier q) (p : List Char) :
    startsNumber (p ++ q) = startsNumber p := by
  rw [startsNumber, shielded_splitSign p h]
  exact h.startsUnsigned_append _

theorem shielded_splitFraction : Shielded splitFraction := by
  intro p q h
  fun_cases splitFraction p with
  | case1 rest hd =>
    rw [List.cons_append, splitFraction, if_pos (by rwa [h.startsDigit_append]), shielded_splitDigits rest h]
  | case2 rest hd => rw [List.cons_append, splitFraction, if_neg (by rwa [h.startsDigit_append])]
  | case3 p hc =>
    refine splitFraction.eq_2 _ ?_
    intro rest he
    cases p with
    | nil => exact h.cons_ne (by decide) rest he
    | cons c p =>
      obtain ⟨rfl, -⟩ := List.cons.inj he
      exact hc p rfl

theorem shielded_splitExponent : Shielded splitExponent := by
  intro p q h
  cases p with
  | nil =>
    cases q with
    | nil => rfl
    | cons c q =>
      have hlow : c ≠ 'e' := fun hc => h.head?_ne (c := 'e') (by decide) (congrArg some hc)
      have hhigh : c ≠ 'E' := fun hc => h.head?_ne (c := 'E') (by decide) (congrArg some hc)
      simp [splitExponent, hlow, hhigh]
  | cons e p =>
    simp only [splitExponent, List.cons_append, shielded_splitSign p h, h.startsDigit_append,
      shielded_splitDigits _ h]
    split <;> rfl

theorem shielded_splitNumber : Shielded splitNumber := by
  intro p q h
  simp only [splitNumber, shielded_splitSign _ h, shielded_splitDigits _ h, shielded_splitFraction _ h,
    shielded_splitExponent _ h]

/-! ### Forks -/

/-- Two ways for a text to go on: with `q` or with `q'`. -/
structure Ways (q q' : List Char) : Prop where
  more : q ≠ []
  left : Barrier q
  right : Barrier q'
  /-- A function for addresses has its quote, if it has one, in the text. -/
  unquoted : ∀ c ∈ (q.dropWhile isBlank).head?, c ≠ '"' ∧ c ≠ '\''

/-- The text `p`, that goes on in two ways. What is cut off it leaves `r`, and what follows. -/
structure Fork (q q' p r : List Char) : Prop extends Ways q q' where
  /-- A backslash at the end of the text is one in both cases, or in none. -/
  newline : p.getLast? = some '\\' → startsNewline q = startsNewline q'
  /-- Nothing is taken in that was not there before: no parenthesis behind a name, and no blank behind an escape. -/
  next : r = [] → q.head? = q'.head? ∨ q'.head? ≠ some '(' ∧ ('\\' ∈ p → startsBlank q' = false)

/-- What is cut off a text that forks does not depend on which way it goes. -/
def Forks {α : Type} (f : List Char → α × List Char) : Prop :=
  ∀ ⦃q q' p r : List Char⦄ ⦃a : α⦄, Fork q q' p r → f (p ++ q) = (a, r ++ q) → f (p ++ q') = (a, r ++ q')

namespace Fork

variable {q q' p r : List Char}

theorem of_append {u : List Char} (h : Fork q q' (u ++ p) r) : Fork q q' p r where
  toWays := h.toWays
  newline hp := h.newline (by rw [List.getLast?_append, hp]; rfl)
  next hr := (h.next hr).imp_right fun hn => ⟨hn.1, fun hp => hn.2 (List.mem_append_right u hp)⟩

/-- More may be left of the text. -/
theorem left_over {u : List Char} (h : Fork q q' p r) : Fork q q' p (u ++ r) :=
  { h with next := fun hr => h.next (List.append_eq_nil_iff.mp hr).2 }

variable (h : Fork q q' p r)

include h

theorem startsEscape_eq : startsEscape (p ++ q) = startsEscape (p ++ q') := by
  cases p with
  | nil =>
    rw [List.nil_append, List.nil_append, startsEscape.eq_2 _ (h.left.cons_ne (by decide)),
      startsEscape.eq_2 _ (h.right.cons_ne (by decide))]
  | cons c p =>
    by_cases hc : c = '\\'
    · subst hc
      show (! startsNewline (p ++ q)) = ! startsNewline (p ++ q')
      cases p with
      | nil => rw [List.nil_append, List.nil_append, h.newline rfl]
      | cons => rfl
    · have hslash : ∀ ds rest, c :: ds = '\\' :: rest → False := fun _ _ he => hc (List.cons.inj he).1
      rw [List.cons_append, List.cons_append, startsEscape.eq_2 _ (hslash _), startsEscape.eq_2 _ (hslash _)]

theorem startsIdent_eq : startsIdent (p ++ q) = startsIdent (p ++ q') := by
  cases p with
  | nil => exact h.left.startsIdent_eq_false.1.trans h.right.startsIdent_eq_false.1.symm
  | cons c p =>
    by_cases hdash : c = '-'
    · subst hdash
      cases p with
      | nil => exact h.left.startsIdent_eq_false.2.trans h.right.startsIdent_eq_false.2.symm
      | cons => rfl
    · rw [List.cons_append, List.cons_append, startsIdent.eq_2 c _ (fun _ _ he => absurd he hdash),
        startsIdent.eq_2 c _ (fun _ _ he => absurd he hdash)]
      exact congrArg (isNameStart c || ·) h.startsEscape_eq

end Fork

end Timeline.Css
