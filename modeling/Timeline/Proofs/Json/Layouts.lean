import Mathlib.Data.List.Forall2
import Timeline.Proofs.Json.Strings
import Timeline.Proofs.Text.Digits

/-! Both layouts read back.

A text reads as a value if the machine, wherever it waits for a value, gets through the text and ends up
with the value complete (`Reads`). Texts that read as items, separated by commas between brackets, read
as the array of the items, and so with the members of objects, whatever blanks stand around them. By
induction over a value both of its texts read as it (`reads_layouts`). -/
namespace Timeline.Json

open Text

namespace State

/-! ### What the machine waits for -/

/-- States that wait for a value, which goes on top of a stack. -/
inductive AwaitsValue : List Open → State → Prop
  | value (stack : List Open) : AwaitsValue stack ⟨stack, .value⟩
  | firstItem (stack : List Open) : AwaitsValue (.array [] :: stack) ⟨stack, .firstItem⟩

/-- States that wait for a key of an object with some members. -/
inductive AwaitsKey (stack : List Open) : List (String × Value) → State → Prop
  | key (members : List (String × Value)) : AwaitsKey stack members ⟨stack, .key members⟩
  | firstKey : AwaitsKey stack [] ⟨stack, .firstKey⟩

/-- States behind a value. A word is complete only when something else follows. -/
inductive Completes (stack : List Open) (value : Value) : State → Prop
  | done : Completes stack value ⟨stack, .done value⟩
  | word (cs : List Char) (h : Value.ofWord? cs = some value) : Completes stack value ⟨stack, .word cs⟩

variable {stack : List Open} {members : List (String × Value)} {value : Value} {s : State} {c : Char}

theorem AwaitsValue.step_blank (h : AwaitsValue stack s) (hc : isBlank c = true) : s.step c = some s := by
  cases h <;> simp [step, hc]

theorem AwaitsValue.step (h : AwaitsValue stack s) (hc : isBlank c = false) (hcloser : c ≠ ']') :
    s.step c = ofValue? stack c := by
  cases h <;> simp [State.step, hc, hcloser]

theorem AwaitsKey.step_blank (h : AwaitsKey stack members s) (hc : isBlank c = true) : s.step c = some s := by
  cases h <;> simp [State.step, hc]

theorem AwaitsKey.step_quote (h : AwaitsKey stack members s) :
    s.step '"' = some ⟨stack, .quoted (some members) [] false⟩ := by
  cases h <;> rfl

theorem Completes.step (h : Completes stack value s) (hc : isWordChar c = false) :
    s.step c = after? stack value c := by
  cases h with
  | done => rfl
  | word cs hw => simp [State.step, hc, hw]

theorem Completes.value? (h : Completes [] value s) : s.value? = some value := by
  cases h with
  | done => rfl
  | word cs hw => exact hw

/-! ### Blanks -/

theorem run_blanks (hstep : ∀ c, isBlank c = true → s.step c = some s) {blanks : List Char}
    (hb : ∀ c ∈ blanks, isBlank c = true) : s.run blanks = some s := by
  induction blanks with
  | nil => rfl
  | cons c cs ih =>
    rw [run_cons, hstep c (hb c (by simp)), Option.bind_some]
    exact ih fun d hd => hb d (List.mem_cons_of_mem _ hd)

theorem isWordChar_of_isBlank (hc : isBlank c = true) : isWordChar c = false := by simp [isWordChar, hc]

/-- Blanks between a value and what comes behind it do not matter. -/
theorem Completes.run_blanks (h : Completes stack value s) {blanks : List Char}
    (hb : ∀ c ∈ blanks, isBlank c = true) (hc : isWordChar c = false) :
    s.run (blanks ++ [c]) = after? stack value c := by
  cases blanks with
  | nil => simp [h.step hc]
  | cons b cs =>
    have hbc := hb b (by simp)
    have hafter : ∀ d, isBlank d = true → State.step ⟨stack, .done value⟩ d = some ⟨stack, .done value⟩ := by
      intro d hd
      simp [State.step, after?, hd]
    rw [List.cons_append, run_cons, h.step (isWordChar_of_isBlank hbc), after?, if_pos hbc, Option.bind_some,
      run_append, State.run_blanks hafter fun d hd => hb d (List.mem_cons_of_mem _ hd), Option.bind_some]
    simp [State.step]

end State

open State

/-! ### Texts of values and of members -/

/-- A text that the machine takes for a value, wherever it waits for one. -/
def Reads (text : List Char) (value : Value) : Prop :=
  ∀ ⦃stack : List Open⦄ ⦃s : State⦄, AwaitsValue stack s →
    ∃ s', s.run text = some s' ∧ s'.Completes stack value

/-- A text that the machine takes for a member, wherever it waits for a key. -/
def ReadsMember (text : List Char) (member : String × Value) : Prop :=
  ∀ ⦃stack : List Open⦄ ⦃members : List (String × Value)⦄ ⦃s : State⦄, AwaitsKey stack members s →
    ∃ s', s.run text = some s' ∧ s'.Completes (.object members member.1 :: stack) member.2

variable {text blanks : List Char} {value : Value}

theorem Reads.gap (hb : ∀ c ∈ blanks, isBlank c = true) (h : Reads text value) : Reads (blanks ++ text) value := by
  intro stack s hs
  rw [run_append, run_blanks (fun c hc => hs.step_blank hc) hb]
  exact h hs

theorem ReadsMember.gap {member : String × Value} (hb : ∀ c ∈ blanks, isBlank c = true)
    (h : ReadsMember text member) : ReadsMember (blanks ++ text) member := by
  intro stack members s hs
  rw [run_append, run_blanks (fun c hc => hs.step_blank hc) hb]
  exact h hs

theorem run_word (stack : List Open) (cs : List Char) {more : List Char} (hmore : ∀ c ∈ more, isWordChar c = true) :
    run ⟨stack, .word cs⟩ more = some ⟨stack, .word (cs ++ more)⟩ := by
  induction more generalizing cs with
  | nil => simp
  | cons c more ih =>
    have hstep : step ⟨stack, .word cs⟩ c = some ⟨stack, .word (cs ++ [c])⟩ := by simp [step, hmore c (by simp)]
    rw [run_cons, hstep, Option.bind_some, ih _ fun d hd => hmore d (List.mem_cons_of_mem _ hd), List.append_assoc]
    rfl

theorem reads_word (hword : Value.ofWord? text = some value) (hne : text ≠ [])
    (hchars : ∀ c ∈ text, isWordChar c = true) : Reads text value := by
  intro stack s hs
  obtain ⟨c, cs, rfl⟩ := List.exists_cons_of_ne_nil hne
  have hc := hchars c (by simp)
  have hmarks : isBlank c = false ∧ c ≠ '"' ∧ c ≠ '[' ∧ c ≠ ']' ∧ c ≠ '\x7b' ∧ c ≠ '\x7d' ∧ c ≠ ',' ∧ c ≠ ':' := by
    simpa [isWordChar, not_or, and_assoc] using hc
  have hfirst : s.step c = some ⟨stack, .word [c]⟩ := by
    rw [hs.step hmarks.1 hmarks.2.2.2.1]
    simp [ofValue?, hc, hmarks]
  refine ⟨⟨stack, .word (c :: cs)⟩, ?_, .word _ hword⟩
  rw [run_cons, hfirst, Option.bind_some, run_word stack [c] fun d hd => hchars d (List.mem_cons_of_mem _ hd)]
  rfl

theorem reads_quoted (text : String) : Reads (quoted text) (.string text) := by
  intro stack s hs
  refine ⟨⟨stack, .done (.string text)⟩, ?_, .done⟩
  rw [quoted, run_cons, hs.step (by decide) (by decide)]
  exact run_quoted stack none text

theorem readsMember_quoted (blanks : List Char) (key : String) (hb : ∀ c ∈ blanks, isBlank c = true)
    (h : Reads text value) :
    ReadsMember (quoted key ++ ':' :: (blanks ++ text)) (key, value) := by
  intro stack members s hs
  rw [run_append, quoted, run_cons, hs.step_quote, Option.bind_some, run_quoted, Option.bind_some, run_cons]
  exact h.gap hb (.value (.object members key :: stack))

/-! ### Elements between brackets -/

/-- Elements that are read one by one, with commas between them, are read in a row. `Awaits` says what a
state has read so far, and `element` what is read as an element. -/
theorem run_commaSeparated {α : Type} (Awaits : List α → State → Prop) {Element : List Char → α → Prop}
    {closing : List Char} (closed : List α → State)
    (hcomma : ∀ ⦃sofar s text a⦄, Awaits sofar s → Element text a →
      ∃ s', s.run (text ++ [',']) = some s' ∧ Awaits (sofar ++ [a]) s')
    (hclose : ∀ ⦃sofar s text a⦄, Awaits sofar s → Element text a →
      s.run (text ++ closing) = some (closed (sofar ++ [a])))
    {texts : List (List Char)} {elements : List α} (h : List.Forall₂ Element texts elements) (hne : texts ≠ [])
    {sofar : List α} {s : State} (hs : Awaits sofar s) :
    s.run (commaSeparated texts ++ closing) = some (closed (sofar ++ elements)) := by
  induction h generalizing sofar s with
  | nil => exact absurd rfl hne
  | @cons text a texts elements ha hrest ih =>
    cases hrest with
    | nil => exact hclose hs ha
    | cons hb hrest =>
      obtain ⟨s', hrun, hs'⟩ := hcomma hs ha
      have hmore := ih (by simp) hs'
      rw [List.append_assoc] at hmore
      rw [commaSeparated, List.append_cons, List.append_assoc, run_append, hrun]
      · exact hmore
      · simp

theorem reads_array {texts : List (List Char)} {items : List Value} (blanks : List Char)
    (hb : ∀ c ∈ blanks, isBlank c = true)
    (h : List.Forall₂ Reads texts items) :
    Reads ('[' :: (commaSeparated texts ++ (blanks ++ [']']))) (.array items) := by
  intro stack s hs
  refine ⟨⟨stack, .done (.array items)⟩, ?_, .done⟩
  rw [run_cons, hs.step (by decide) (by decide)]
  show run ⟨stack, .firstItem⟩ _ = _
  cases texts with
  | nil =>
    cases h
    rw [commaSeparated, List.nil_append, run_append,
      run_blanks (fun c hc => (AwaitsValue.firstItem stack).step_blank hc) hb]
    rfl
  | cons text texts =>
    refine run_commaSeparated (fun sofar => AwaitsValue (.array sofar :: stack))
      (fun items => ⟨stack, .done (.array items)⟩) (fun sofar s text item hs hitem => ?_)
      (fun sofar s text item hs hitem => ?_) h (by simp) (.firstItem stack)
    · obtain ⟨s', hrun, hs'⟩ := hitem hs
      rw [run_append, hrun, Option.bind_some]
      exact ⟨_, by rw [run_cons, hs'.step (by decide)]; rfl, .value _⟩
    · obtain ⟨s', hrun, hs'⟩ := hitem hs
      rw [run_append, hrun, Option.bind_some, hs'.run_blanks hb (by decide)]
      rfl

theorem reads_object {texts : List (List Char)} {members : List (String × Value)} (blanks : List Char)
    (hb : ∀ c ∈ blanks, isBlank c = true) (h : List.Forall₂ ReadsMember texts members) :
    Reads ('\x7b' :: (commaSeparated texts ++ (blanks ++ ['\x7d']))) (.object members) := by
  intro stack s hs
  refine ⟨⟨stack, .done (.object members)⟩, ?_, .done⟩
  rw [run_cons, hs.step (by decide) (by decide)]
  show run ⟨stack, .firstKey⟩ _ = _
  cases texts with
  | nil =>
    cases h
    rw [commaSeparated, List.nil_append, run_append,
      run_blanks (fun c hc => AwaitsKey.firstKey.step_blank hc) hb]
    rfl
  | cons text texts =>
    refine run_commaSeparated (AwaitsKey stack) (fun members => ⟨stack, .done (.object members)⟩)
      (fun sofar s text member hs hmember => ?_) (fun sofar s text member hs hmember => ?_) h (by simp) .firstKey
    · obtain ⟨s', hrun, hs'⟩ := hmember hs
      rw [run_append, hrun, Option.bind_some]
      exact ⟨_, by rw [run_cons, hs'.step (by decide)]; rfl, .key _⟩
    · obtain ⟨s', hrun, hs'⟩ := hmember hs
      rw [run_append, hrun, Option.bind_some, hs'.run_blanks hb (by decide)]
      rfl

/-! ### Numbers -/

theorem isWordChar_of_isNumberChar {c : Char} (h : isNumberChar c = true) : isWordChar c = true := by
  have hne := ne_of_class h
  simp [isWordChar, isBlank, hne ' ' rfl, hne '\t' rfl, hne '\n' rfl, hne '\r' rfl, hne '"' rfl, hne '[' rfl,
    hne ']' rfl, hne '\x7b' rfl, hne '\x7d' rfl, hne ',' rfl, hne ':' rfl]

/-- A number has a digit, and nothing that does not belong to numbers. -/
theorem mem_unsigned (h : isUnsigned text = true) : text ≠ [] ∧ ∀ c ∈ text, isNumberChar c = true := by
  simp only [isUnsigned, Bool.and_eq_true, List.isEmpty_iff] at h
  obtain ⟨hwhole, hrest⟩ := h
  have hexponent := splitExponent_append (splitFraction (splitDigits text).2).2
  rw [hrest, List.append_nil] at hexponent
  refine ⟨?_, ?_⟩
  · intro hnil
    rw [hnil] at hwhole
    cases hwhole
  rw [← splitDigits_append text, ← splitFraction_append (splitDigits text).2, ← hexponent]
  intro c hc
  rcases List.mem_append.mp hc with hd | hc
  · exact mem_splitDigits hd
  rcases List.mem_append.mp hc with hf | he
  · exact mem_splitFraction c hf
  · exact mem_splitExponent c he

theorem mem_number (h : isNumber text = true) : text ≠ [] ∧ ∀ c ∈ text, isNumberChar c = true := by
  unfold isNumber at h
  split at h
  · exact ⟨by simp, List.forall_mem_cons.mpr ⟨by decide, (mem_unsigned h).2⟩⟩
  · exact mem_unsigned h

theorem reads_number (h : isNumber text = true) : Reads text (.number text) := by
  have hmem := mem_number h
  exact reads_word (if_pos h) hmem.1 fun c hc => isWordChar_of_isNumberChar (hmem.2 c hc)

/-! ### Layouts -/

mutual

/-- Whether everything that is kept as a number is one. -/
def Value.IsWritable : Value → Prop
  | .number literal => isNumber literal = true
  | .array items => AreWritable items
  | .object members => MembersWritable members
  | _ => True

def AreWritable : List Value → Prop
  | [] => True
  | item :: items => item.IsWritable ∧ AreWritable items

def MembersWritable : List (String × Value) → Prop
  | [] => True
  | (_, value) :: members => value.IsWritable ∧ MembersWritable members

end

theorem areWritable_iff (items : List Value) : AreWritable items ↔ ∀ item ∈ items, item.IsWritable := by
  induction items with
  | nil => simp [AreWritable]
  | cons item items ih => simp [AreWritable, ih]

theorem membersWritable_iff (members : List (String × Value)) :
    MembersWritable members ↔ ∀ member ∈ members, member.2.IsWritable := by
  induction members with
  | nil => simp [MembersWritable]
  | cons member members ih => simp [MembersWritable, ih]

theorem reads_null : Reads nullWord .null := reads_word rfl (by decide) (List.all_eq_true.mp rfl)

theorem reads_boolean (b : Bool) : Reads (booleanWord b) (.boolean b) := by
  cases b
  · exact reads_word rfl (by decide) (List.all_eq_true.mp rfl)
  · exact reads_word rfl (by decide) (List.all_eq_true.mp rfl)

theorem isBlank_newline (level : Nat) : ∀ c ∈ newline level, isBlank c = true := by
  intro c hc
  rcases List.mem_cons.mp hc with rfl | hc
  · rfl
  · rw [List.eq_of_mem_replicate hc]
    rfl

/-- The lines of elements that are not none, and the blanks in front of the closing character. -/
theorem onLines_eq (level : Nat) (opener closer : Char) (texts : List (List Char)) :
    onLines level opener closer texts = opener :: (commaSeparated (texts.map (newline (level + 1) ++ ·)) ++
      ((if texts = [] then [] else newline level) ++ [closer])) := by
  cases texts with
  | nil => rfl
  | cons text texts => simp [onLines]

theorem reads_onLines_array {texts : List (List Char)} {items : List Value} (level : Nat)
    (h : List.Forall₂ Reads texts items) : Reads (onLines level '[' ']' texts) (.array items) := by
  rw [onLines_eq]
  refine reads_array _ ?_ (List.forall₂_map_left_iff.mpr (h.imp fun _ _ hr => hr.gap (isBlank_newline _)))
  split
  · simp
  · exact isBlank_newline level

theorem reads_onLines_object {texts : List (List Char)} {members : List (String × Value)} (level : Nat)
    (h : List.Forall₂ ReadsMember texts members) : Reads (onLines level '\x7b' '\x7d' texts) (.object members) := by
  rw [onLines_eq]
  refine reads_object _ ?_ (List.forall₂_map_left_iff.mpr (h.imp fun _ _ hr => hr.gap (isBlank_newline _)))
  split
  · simp
  · exact isBlank_newline level

mutual

theorem reads_compact : ∀ v : Value, v.IsWritable → Reads (compact v) v
  | .null, _ => reads_null
  | .boolean b, _ => reads_boolean b
  | .number _, h => reads_number h
  | .string text, _ => reads_quoted text
  | .array items, h => reads_array [] (by simp) (reads_compactItems items h)
  | .object members, h => reads_object [] (by simp) (reads_compactMembers members h)

theorem reads_compactItems : ∀ items : List Value, AreWritable items → List.Forall₂ Reads (compactItems items) items
  | [], _ => .nil
  | item :: items, h => .cons (reads_compact item h.1) (reads_compactItems items h.2)

theorem reads_compactMembers : ∀ members : List (String × Value), MembersWritable members →
    List.Forall₂ ReadsMember (compactMembers members) members
  | [], _ => .nil
  | (key, value) :: members, h =>
    .cons (readsMember_quoted [] key (by simp) (reads_compact value h.1)) (reads_compactMembers members h.2)

end

mutual

theorem reads_pretty : ∀ (v : Value) (level : Nat), v.IsWritable → Reads (pretty level v) v
  | .null, _, _ => reads_null
  | .boolean b, _, _ => reads_boolean b
  | .number _, _, h => reads_number h
  | .string text, _, _ => reads_quoted text
  | .array items, level, h => reads_onLines_array level (reads_prettyItems items level h)
  | .object members, level, h => reads_onLines_object level (reads_prettyMembers members level h)

theorem reads_prettyItems : ∀ (items : List Value) (level : Nat), AreWritable items →
    List.Forall₂ Reads (prettyItems level items) items
  | [], _, _ => .nil
  | item :: items, level, h => .cons (reads_pretty item (level + 1) h.1) (reads_prettyItems items level h.2)

theorem reads_prettyMembers : ∀ (members : List (String × Value)) (level : Nat), MembersWritable members →
    List.Forall₂ ReadsMember (prettyMembers level members) members
  | [], _, _ => .nil
  | (key, value) :: members, level, h =>
    .cons (readsMember_quoted [' '] key (List.forall_mem_singleton.mpr rfl) (reads_pretty value (level + 1) h.1))
      (reads_prettyMembers members level h.2)

end

/-- Either text of a value is read as the value. -/
theorem read?_text (v : Value) (h : v.IsWritable) (isPretty : Bool) : read? (v.text isPretty) = some v := by
  have hreads : Reads (if isPretty then pretty 0 v else compact v) v := by
    split
    · exact reads_pretty v 0 h
    · exact reads_compact v h
  obtain ⟨s, hrun, hs⟩ := hreads (.value [])
  rw [read?, Value.text, String.toList_ofList, hrun]
  exact hs.value?

end Timeline.Json
