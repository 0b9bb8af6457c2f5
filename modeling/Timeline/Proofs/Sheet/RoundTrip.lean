import Timeline.Proofs.Sheet.Acceptance
import Timeline.Proofs.Sheet.Printer
import Timeline.Proofs.Sheet.Reads

/-! Reading undoes printing.

Part by part, whatever comes after it, printed text is read as content of its own that follows
the grammar, with the very items that were printed. As what follows the grammar is read without
faults, the rules come back (`ofText_print`). -/
namespace Timeline.Sheet

open Css (Content isBlank isEnd isNameChar isTame lex quoted)
open Text (IsTrimmed isWhiteSpace trim)

/-! ### Values -/

/-- The value of a declaration, with the semicolon behind it. -/
theorem reads_value {cs : List Char} (h : IsValue cs) (x : List Char) :
    ∃ c : Content, Reads (cs ++ [';']) (c.append (.token ⟨.semicolon, [';']⟩ .nil)) x ∧ c.Free [.semicolon] ∧
      c.text = cs ∧ ∀ t ∈ c.tokens, t.kind.isComment = false := by
  have hsplit := Content.upTo_append_past [.semicolon] (Content.ofText (cs ++ [';']))
  have hfree : ((Content.ofText (cs ++ [';'])).upTo [.semicolon]).Free [.semicolon] := Content.free_upTo _
  rw [h.ends] at hsplit
  generalize (Content.ofText (cs ++ [';'])).upTo [.semicolon] = c at hsplit hfree
  have htokens : lex (cs ++ [';']) = c.tokens ++ [⟨.semicolon, [';']⟩] := by
    rw [← Content.tokens_ofTokens (lex (cs ++ [';'])), ← Content.ofText, ← hsplit, Content.tokens_append]
    rfl
  have htext : c.text ++ [';'] = cs ++ [';'] := by
    rw [← Content.text_ofText (cs ++ [';']), ← hsplit, Content.text, Content.text, Content.tokens_append]
    simp [Content.tokens]
  refine ⟨c, ⟨?_, ?_⟩, hfree, List.append_cancel_right htext, ?_⟩
  · rw [Css.lex_append (by rw [htokens]; exact List.getLast?_concat) rfl rfl, htokens, Content.tokens_append]
    rfl
  · rw [hsplit]
    exact (Content.whole_ofTokens_iff _ .origin).mpr h.faultless
  · intro t ht
    exact h.noComment t (by rw [htokens]; exact List.mem_append_left _ ht)

theorem IsValue.noBlank {cs : List Char} (h : IsValue cs) : NoBlank (cs ++ [';']) := by
  have hhead := Text.head?_trim cs
  rw [h.trimmed] at hhead
  cases cs with
  | nil => exact fun c hc => by obtain rfl := Option.some.inj hc; rfl
  | cons c cs =>
    intro d hd
    obtain rfl : c = d := Option.some.inj hd
    exact Css.isBlank_eq_false (p := (! isWhiteSpace ·)) (by simpa using hhead) (by decide)

/-! ### Declarations -/

theorem noBlank_of_isName {cs : List Char} (h : Css.IsName cs) (x : List Char) : NoBlank (cs ++ x) := by
  obtain ⟨c, hc, hstart⟩ := h.start
  obtain ⟨rest, rfl⟩ := List.head?_eq_some_iff.mp hc
  intro d hd
  obtain rfl : c = d := Option.some.inj hd
  exact Css.isBlank_eq_false hstart (by decide)

theorem reads_name {cs x y : List Char} (h : Css.IsName cs) {c : Content} (hc : Reads (':' :: x) c y) :
    Reads (cs ++ ':' :: x) (.token ⟨.ident (String.ofList cs), cs⟩ c) y :=
  Reads.append (.token (Css.lex_ident _ h (by decide) (by decide) (by decide)) rfl rfl) hc

/-- One declaration in front of others. -/
theorem reads_declaration {d : Declaration} (h : d.Printable) {more x : List Char} {rest : Content}
    {ds : List Declaration} (hr : Reads (' ' :: more) rest x) (hd : Grammar.Declarations rest ds) :
    ∃ c, Reads (' ' :: (d.print ++ more)) c x ∧ Grammar.Declarations c (d :: ds) := by
  obtain ⟨value, hvalue, hfree, htext, hcomment⟩ := reads_value h.value (' ' :: more ++ x)
  have hexcerpt : (space.append value).excerpt = d.value.toList := by
    have hcomments : ∀ t ∈ (space.append value).tokens, t.kind.isComment = false := by
      intro t ht
      rcases List.mem_cons.mp ht with rfl | ht
      · rfl
      · exact hcomment t ht
    rw [excerpt_eq_trim hcomments]
    show trim (' ' :: value.text) = d.value.toList
    rw [htext]
    exact h.value.trimmed
  have hsegment : Grammar.Segment (space.append (.token ⟨.ident d.property, d.property.toList⟩
      (.token ⟨.colon, [':']⟩ (space.append value)))) [d] := by
    have hvalue : d.value = String.ofList (space.append value).excerpt := by rw [hexcerpt, String.ofList_toList]
    show Grammar.Segment _ [⟨d.property, d.value, d.span⟩]
    rw [hvalue]
    exact @Grammar.Segment.declaration space .nil (space.append value) d.property _ _ d.span isTrivia_space trivial
  have hsegmentFree : (space.append (.token ⟨.ident d.property, d.property.toList⟩
      (.token ⟨.colon, [':']⟩ (space.append value)))).Free [.semicolon] :=
    Content.free_append.mpr ⟨isTrivia_space.free, Content.free_token.mpr ⟨rfl, Content.free_token.mpr ⟨rfl,
      Content.free_append.mpr ⟨isTrivia_space.free, hfree⟩⟩⟩⟩
  refine ⟨space.append (.token ⟨.ident d.property, d.property.toList⟩ (.token ⟨.colon, [':']⟩
    (space.append (value.append (.token ⟨.semicolon, [';']⟩ rest))))), ?_, ?_⟩
  · have hspace := (hvalue.append hr).afterSpace ((h.value.noBlank.append (by simp) _).append (by simp) x)
    have hreads := (reads_name h.property hspace.afterColon).afterSpace
      ((noBlank_of_isName h.property _).append (by simp) x)
    simpa [Declaration.print, Content.append_assoc, Content.append, space] using hreads
  · have hmore := @Grammar.Declarations.more _ rest [';'] _ _ hsegmentFree hsegment hd
    simpa [Content.append_assoc, Content.append, space] using hmore

theorem reads_declarations {ds : List Declaration} (h : ∀ d ∈ ds, d.Printable) {x : List Char} (hx : NoBlank x) :
    ∃ c, Reads (' ' :: ds.flatMap Declaration.print) c x ∧ Grammar.Declarations c ds := by
  induction ds with
  | nil => exact ⟨space, reads_space hx, .last isTrivia_space.free (.blank isTrivia_space)⟩
  | cons d ds ih =>
    rw [List.forall_mem_cons] at h
    obtain ⟨rest, hrest, hrules⟩ := ih h.2
    exact reads_declaration h.1 hrest hrules

/-! ### Selectors -/

theorem printSelectors_cons (s t : String) (more : List String) :
    printSelectors (s :: t :: more) = s.toList ++ ',' :: ' ' :: printSelectors (t :: more) := by
  simp [printSelectors, List.intercalate]

theorem isWhiteSpace_of_isTame {c : Char} (h : isTame c = true) : isWhiteSpace c = false := by
  simp only [isTame, Bool.and_eq_true, Bool.not_eq_true'] at h
  exact h.1

theorem IsSelector.isTrimmed {cs : List Char} (h : IsSelector cs) : IsTrimmed cs :=
  ⟨fun c hc => isWhiteSpace_of_isTame (h.2 c (List.mem_of_head? hc)),
    fun c hc => isWhiteSpace_of_isTame (h.2 c (List.mem_of_getLast? hc))⟩

theorem printSelectors_ne_nil {selectors : List String} (hne : selectors ≠ [])
    (h : ∀ s ∈ selectors, IsSelector s.toList) : printSelectors selectors ≠ [] := by
  match selectors with
  | [] => exact absurd rfl hne
  | [s] => simpa [printSelectors] using (h s (by simp)).1
  | s :: t :: more => simp [printSelectors_cons]

theorem isTrimmed_printSelectors {selectors : List String} (h : ∀ s ∈ selectors, IsSelector s.toList) :
    IsTrimmed (printSelectors selectors) := by
  induction selectors with
  | nil => exact ⟨by simp [printSelectors], by simp [printSelectors]⟩
  | cons s more ih =>
    rw [List.forall_mem_cons] at h
    cases more with
    | nil => simpa [printSelectors] using h.1.isTrimmed
    | cons t more =>
      have hne := printSelectors_ne_nil (by simp) h.2
      rw [printSelectors_cons]
      exact h.1.isTrimmed.around h.1.1 (ih h.2) hne [',', ' ']

theorem fields_comma {cs : List Char} (h : ',' ∉ cs) (x : List Char) :
    Text.fields ',' (cs ++ ',' :: x) = cs :: Text.fields ',' x := by
  induction cs with
  | nil => rw [List.nil_append, Text.fields, if_pos rfl]
  | cons c cs ih =>
    simp only [List.mem_cons, not_or] at h
    rw [List.cons_append, Text.fields, if_neg (Ne.symm h.1), ih h.2]

/-- The fields between commas are the words that were joined, once they are trimmed. -/
theorem fields_printSelectors {selectors : List String} (hne : selectors ≠ [])
    (h : ∀ s ∈ selectors, IsSelector s.toList) {front : List Char} (hf : front = [] ∨ front = [' ']) :
    (Text.fields ',' (front ++ printSelectors selectors)).map (fun field => String.ofList (trim field)) =
      selectors := by
  have hfield : ∀ (s : String) (front : List Char), IsSelector s.toList → (front = [] ∨ front = [' ']) →
      ',' ∉ front ++ s.toList ∧ String.ofList (trim (front ++ s.toList)) = s := by
    intro s front hs hf
    have hcomma : ',' ∉ s.toList := Css.not_mem_of_class hs.2 (by decide)
    have htrim : trim s.toList = s.toList := hs.isTrimmed.trim
    rcases hf with rfl | rfl
    · exact ⟨hcomma, by rw [List.nil_append, htrim, String.ofList_toList]⟩
    · exact ⟨by simpa using hcomma, by rw [List.singleton_append, trim_space, htrim, String.ofList_toList]⟩
  induction selectors generalizing front with
  | nil => exact absurd rfl hne
  | cons s more ih =>
    rw [List.forall_mem_cons] at h
    obtain ⟨hcomma, htrim⟩ := hfield s front h.1 hf
    cases more with
    | nil =>
      have hprint : printSelectors [s] = s.toList := by simp [printSelectors]
      rw [hprint, Text.fields_of_not_mem hcomma, List.map_singleton, htrim]
    | cons t more =>
      rw [printSelectors_cons, ← List.append_assoc, fields_comma hcomma, List.map_cons, htrim]
      exact congrArg (s :: ·) (ih (by simp) h.2 (.inr rfl))

theorem selectorsOf_printSelectors {selectors : List String} (hne : selectors ≠ [])
    (h : ∀ s ∈ selectors, IsSelector s.toList) :
    KeyframeBlock.selectorsOf (printSelectors selectors) = selectors := by
  rw [KeyframeBlock.selectorsOf, if_neg (printSelectors_ne_nil hne h)]
  exact fields_printSelectors hne h (.inl rfl)

/-- A selector in front of a comma or space. -/
theorem reads_selector {cs : List Char} (h : IsSelector cs) {s : Char} (hs : isEnd s = true) (x : List Char) :
    ∃ c, Reads cs c (s :: x) ∧ Shows c cs := by
  obtain ⟨ts, hlex, hplain, htexts⟩ := Css.lex_word h.2 hs x
  have hne : ts ≠ [] := by
    intro hn
    rw [hn] at htexts
    exact h.1 htexts.symm
  exact ⟨flat ts, ⟨by rw [tokens_flat]; exact hlex, whole_flat hplain⟩, htexts ▸ shows_flat hplain hne⟩

theorem Reads.afterComma {a x : List Char} {c : Content} (h : Reads a c x) :
    Reads (',' :: a) (.token ⟨.comma, [',']⟩ c) x := by
  have hcomma : Reads [','] (.token ⟨.comma, [',']⟩ .nil) (a ++ x) := .token (Css.lex_single rfl _) rfl rfl
  exact hcomma.append h

theorem reads_printSelectors {selectors : List String} (hne : selectors ≠ [])
    (h : ∀ s ∈ selectors, IsSelector s.toList) (x : List Char) :
    ∃ c, Reads (printSelectors selectors) c (' ' :: x) ∧ Shows c (printSelectors selectors) := by
  induction selectors with
  | nil => exact absurd rfl hne
  | cons s more ih =>
    rw [List.forall_mem_cons] at h
    cases more with
    | nil => simpa [printSelectors] using reads_selector h.1 rfl x
    | cons t more =>
      obtain ⟨d, hd, hshows⟩ := ih (by simp) h.2
      have hnoBlank := (noBlank_of_isTrimmed (isTrimmed_printSelectors h.2)).append (printSelectors_ne_nil (by simp) h.2) (' ' :: x)
      obtain ⟨c, hc, hcshows⟩ := reads_selector h.1 (s := ',') rfl (' ' :: (printSelectors (t :: more) ++ ' ' :: x))
      rw [printSelectors_cons]
      refine ⟨_, hc.append (hd.afterSpace hnoBlank).afterComma, hcshows.append ?_ ?_ ?_⟩
      · exact fun stops => Content.free_token.mpr ⟨rfl, Content.free_token.mpr ⟨rfl, hshows.free stops⟩⟩
      · exact List.forall_mem_cons.mpr ⟨rfl, List.forall_mem_cons.mpr ⟨rfl, hshows.noComment⟩⟩
      · show ',' :: ' ' :: d.text = _
        rw [hshows.text]

/-! ### Blocks -/

/-- The prelude that selectors and a space make. -/
theorem excerpt_selectors {prelude : Content} {selectors : List String} (h : ∀ s ∈ selectors, IsSelector s.toList)
    (hs : Shows prelude (printSelectors selectors)) :
    (prelude.append space).excerpt = printSelectors selectors := by
  have hspace : Shows (prelude.append space) (printSelectors selectors ++ [' ']) :=
    hs.append (fun _ => isTrivia_space.free) (List.forall_mem_singleton.mpr rfl) rfl
  rw [excerpt_eq_trim hspace.noComment, hspace.text]
  have htrim : trim ([] ++ (printSelectors selectors ++ [' '])) = printSelectors selectors :=
    Text.trim_between (by simp) (isTrimmed_printSelectors h) (List.forall_mem_singleton.mpr rfl)
  exact htrim

/-- One block in front of others. -/
theorem reads_block {b : KeyframeBlock} (h : b.Printable) {more x : List Char} {rest : Content}
    {bs : List KeyframeBlock} (hr : Reads (' ' :: more) rest x) (hb : Grammar.Blocks rest bs) :
    ∃ c, Reads (' ' :: (b.print ++ ' ' :: more)) c x ∧ Grammar.Blocks c (b :: bs) := by
  have hne := printSelectors_ne_nil h.nonempty h.selectors
  have hnoBlank := noBlank_of_isTrimmed (isTrimmed_printSelectors h.selectors)
  have hclosing : NoBlank ('\x7d' :: (' ' :: more ++ x)) := noBlank_cons (by decide) _
  obtain ⟨body, hbody, hdeclarations⟩ := reads_declarations h.declarations hclosing
  have hblock := (hbody.block.append hr).afterSpace (noBlank_cons (by decide) _)
  obtain ⟨prelude, hprelude, hshows⟩ := reads_printSelectors h.nonempty h.selectors
    ('\x7b' :: (' ' :: b.declarations.flatMap Declaration.print ++ ['\x7d']) ++ ' ' :: more ++ x)
  have hreads := (hprelude.append hblock).afterSpace ((hnoBlank.append hne _).append (by simp) x)
  refine ⟨_, by simpa [KeyframeBlock.print] using hreads, ?_⟩
  have hexcerpt := excerpt_selectors h.selectors hshows
  rw [← Content.append_assoc prelude]
  have hselectors : b.selectors = KeyframeBlock.selectorsOf (prelude.append space).excerpt := by
    rw [hexcerpt, selectorsOf_printSelectors h.nonempty h.selectors]
  show Grammar.Blocks _ (⟨b.selectors, b.declarations, b.span⟩ :: bs)
  rw [hselectors]
  exact .block isTrivia_space (hshows.significant.append space)
    (Content.free_append.mpr ⟨hshows.free _, isTrivia_space.free⟩) (hexcerpt ▸ hne) hdeclarations hb

theorem reads_blocks {bs : List KeyframeBlock} (h : ∀ b ∈ bs, b.Printable) {x : List Char} (hx : NoBlank x) :
    ∃ c, Reads (' ' :: bs.flatMap (fun b => b.print ++ [' '])) c x ∧ Grammar.Blocks c bs := by
  induction bs with
  | nil => exact ⟨space, reads_space hx, .done isTrivia_space⟩
  | cons b bs ih =>
    rw [List.forall_mem_cons] at h
    obtain ⟨rest, hrest, hblocks⟩ := ih h.2
    obtain ⟨c, hc, hfollows⟩ := reads_block h.1 hrest hblocks
    exact ⟨c, by simpa using hc, hfollows⟩

/-! ### Rules -/

theorem vendor?_append {vendor : List Char} (h : vendor = [] ∨ IsVendor vendor) :
    vendor? (String.ofList (vendor ++ "keyframes".toList)) = some (String.ofList vendor) := by
  have hlength : (vendor ++ "keyframes".toList).length - 9 = vendor.length := by
    rw [List.length_append]
    show vendor.length + 9 - 9 = vendor.length
    omega
  have hword : "keyframes".toList.map Char.toLower = "keyframes".toList := by decide
  have hvendor : vendor = [] ∨ 2 < vendor.length ∧ vendor.head? = some '-' ∧ vendor.getLast? = some '-' := by
    rcases h with rfl | ⟨letters, rfl, hne, -⟩
    · exact .inl rfl
    · have := List.length_pos_iff.mpr hne
      refine .inr ⟨?_, rfl, ?_⟩
      · simp only [List.length_cons, List.length_append, List.length_nil]
        omega
      · rw [← List.cons_append]
        exact List.getLast?_concat
  simp only [vendor?, String.toList_ofList, hlength, List.take_left, List.drop_left]
  exact if_pos ⟨hword, hvendor⟩

/-- A keyword is a name that shows the vendor. -/
theorem KeyframesRule.Printable.keyword {r : KeyframesRule} (h : r.Printable) :
    ∃ vendor, vendor? (String.ofList r.keyword) = some vendor ∧ Grammar.shown vendor = r.vendor := by
  obtain ⟨name, vendor, blocks, span⟩ := r
  cases vendor with
  | none => exact ⟨_, vendor?_append (.inl rfl), rfl⟩
  | some vendor =>
    have hv := h.vendor vendor rfl
    refine ⟨_, vendor?_append (.inr hv), ?_⟩
    have hne : vendor ≠ "" := by
      intro heq
      subst heq
      obtain ⟨letters, hletters, -⟩ := hv
      cases hletters
    simp [Grammar.shown, hne]

theorem isNameStart_of_isLetter {c : Char} (h : isLetter c = true) : Css.isNameStart c = true := by
  simp only [isLetter, Bool.or_eq_true] at h
  rcases h with h | h <;> simp [Css.isNameStart, h]

theorem isNameChar_keyword {r : KeyframesRule} (h : r.Printable) :
    ∀ c ∈ r.keyword, isNameChar c = true ∧ c ≠ '\x00' := by
  have hword : ∀ c ∈ "keyframes".toList, isNameChar c = true ∧ c ≠ '\x00' := by
    have hall : "keyframes".toList.all (fun c => isNameChar c && c != '\x00') = true := by decide
    simpa using hall
  refine List.forall_mem_append.mpr ⟨?_, hword⟩
  cases hv : r.vendor with
  | none => simp
  | some vendor =>
    obtain ⟨letters, hletters, -, hall⟩ := h.vendor vendor hv
    show ∀ c ∈ vendor.toList, _
    rw [hletters, List.forall_mem_cons, List.forall_mem_append, List.forall_mem_singleton]
    refine ⟨by decide, fun c hc => ⟨?_, ?_⟩, by decide⟩
    · rw [isNameChar, isNameStart_of_isLetter (hall c hc)]
      rfl
    · intro heq
      subst heq
      exact absurd (hall _ hc) (by decide)

theorem startsIdent_keyword {r : KeyframesRule} (h : r.Printable) (x : List Char) :
    Css.startsIdent (r.keyword ++ x) = true := by
  rw [KeyframesRule.keyword]
  cases hv : r.vendor with
  | none => rfl
  | some vendor =>
    obtain ⟨letters, hletters, hne, hall⟩ := h.vendor vendor hv
    obtain ⟨c, rest, rfl⟩ := List.exists_cons_of_ne_nil hne
    show Css.startsIdent (vendor.toList ++ "keyframes".toList ++ x) = true
    rw [hletters]
    simp [Css.startsIdent, isNameStart_of_isLetter (hall c List.mem_cons_self)]

theorem Reads.afterKeyword {r : KeyframesRule} (h : r.Printable) {a x : List Char} {c : Content}
    (hc : Reads (' ' :: a) c x) :
    Reads ('@' :: (r.keyword ++ ' ' :: a)) (.token ⟨.atKeyword (String.ofList r.keyword), '@' :: r.keyword⟩ c) x := by
  have hchars := isNameChar_keyword h
  have hkeyword : Reads ('@' :: r.keyword) (.token ⟨.atKeyword (String.ofList r.keyword), '@' :: r.keyword⟩ .nil)
      (' ' :: a ++ x) :=
    .token (Css.lex_atKeyword _ (fun c hc => (hchars c hc).1) (startsIdent_keyword h _)
      (fun hm => (hchars _ hm).2 rfl) (by decide) (by decide)) rfl rfl
  exact hkeyword.append hc

theorem Reads.afterQuoted {name a x : List Char} {c : Content} (h : '\x00' ∉ name) (hc : Reads a c x) :
    Reads (quoted name ++ a) (.token ⟨.string (String.ofList name), quoted name⟩ c) x := by
  have hname : Reads (quoted name) (.token ⟨.string (String.ofList name), quoted name⟩ .nil) (a ++ x) :=
    .token (Css.lex_quoted h _) rfl rfl
  exact hname.append hc

/-- A rule in front of others. -/
theorem reads_rule {r : KeyframesRule} (h : r.Printable) {more x : List Char} {rest : Content} {others : List Rule}
    (hr : Reads more rest x) (hrules : Grammar.Rules rest others) {lead : Content} (hl : lead.IsTrivia) :
    ∃ c, Reads (r.print ++ more) c x ∧ Grammar.Rules (lead.append c) (.keyframes r :: others) := by
  obtain ⟨vendor, hvendor, hshown⟩ := h.keyword
  have hclosing : NoBlank ('\x7d' :: (more ++ x)) := noBlank_cons (by decide) _
  obtain ⟨body, hbody, hblocks⟩ := reads_blocks h.blocks hclosing
  have hblock := (hbody.block.append hr).afterSpace (noBlank_cons (by decide) _)
  have hnamed := (hblock.afterQuoted h.name).afterSpace (noBlank_cons (by decide) _)
  refine ⟨_, by simpa [KeyframesRule.print] using hnamed.afterKeyword h, ?_⟩
  show Grammar.Rules _ (.keyframes ⟨r.name, r.vendor, r.blocks, r.span⟩ :: others)
  rw [← hshown]
  exact .keyframes hl hvendor isTrivia_space (.inr rfl) isTrivia_space.free rfl hblocks hrules

theorem reads_gap {gap x : List Char} (h : ∀ c ∈ gap, isBlank c = true) (hx : NoBlank x) :
    ∃ lead, Reads gap lead x ∧ lead.IsTrivia := by
  by_cases hne : gap = []
  · subst hne
    exact ⟨.nil, ⟨rfl, trivial⟩, trivial⟩
  · exact ⟨.token ⟨.blank, gap⟩ .nil, .token (Css.lex_blanks h hne hx) rfl rfl, rfl, trivial⟩

theorem reads_printRules {rules : List (List Char × KeyframesRule)} {last : List Char} (h : PrintableRules rules last) :
    ∃ c, Reads (printRules rules last) c [] ∧ Grammar.Rules c (rules.map fun r => .keyframes r.2) := by
  obtain ⟨each, before, behind⟩ := h
  induction rules with
  | nil =>
    obtain ⟨lead, hlead, htrivia⟩ := reads_gap behind (x := []) (by simp [NoBlank])
    exact ⟨lead, by simpa [printRules] using hlead, .done htrivia⟩
  | cons r rules ih =>
    rw [List.forall_mem_cons] at each before
    obtain ⟨rest, hrest, hrules⟩ := ih each.2 before.2
    have hat : NoBlank (r.2.print ++ printRules rules last ++ []) := noBlank_cons (by decide) _
    obtain ⟨lead, hlead, htrivia⟩ := reads_gap before.1 hat
    obtain ⟨c, hc, hfollows⟩ := reads_rule each.1 hrest hrules htrivia
    exact ⟨lead.append c, by simpa [printRules] using hlead.append hc, hfollows⟩

/-- **Reading undoes printing: the rules come back, and nothing is found wrong.** -/
theorem ofText_print (rules : List (List Char × KeyframesRule)) (last : List Char) (h : PrintableRules rules last) :
    (Stylesheet.ofText (String.ofList (printRules rules last))).diagnostics = [] ∧
      (Stylesheet.ofText (String.ofList (printRules rules last))).rules.map Rule.unplaced =
        rules.map fun r => (Rule.keyframes r.2).unplaced := by
  obtain ⟨c, hc, hrules⟩ := reads_printRules h
  have hcontent : Content.ofText (printRules rules last) = c := by
    have htokens := hc.tokens
    rw [List.append_nil, lex, List.append_nil] at htokens
    rw [Content.ofText, htokens, Content.ofTokens_tokens hc.whole]
  have hfinds := Rule.complete (p := .ofText (String.ofList (printRules rules last)).toList) hrules hc.whole
    (by rw [String.toList_ofList]; exact hcontent)
  refine ⟨hfinds.diagnostics, ?_⟩
  have hitems := hfinds.items
  rw [List.map_map] at hitems
  exact hitems

/-- A rule with a newline and quotes in its name, and a value that holds semicolons and brackets. -/
def fade : KeyframesRule :=
  { name := "fade \"in\"\n"
    vendor := some "-webkit-"
    blocks :=
      [⟨["from", "20.5%"], [⟨"opacity", "0", noSpan⟩, ⟨"mask", "url(a;b) \"\x7d\" f([1;], \\3b )", noSpan⟩], noSpan⟩,
        ⟨["to"], [⟨"x-1", "", noSpan⟩], noSpan⟩, ⟨["#"], [], noSpan⟩]
    span := noSpan }

theorem printable_fade : fade.Printable where
  name := by decide
  vendor := by
    intro v hv
    obtain rfl : "-webkit-" = v := Option.some.inj hv
    exact ⟨"webkit".toList, by decide, by decide, List.all_eq_true.mp (by decide)⟩
  blocks := by decide +kernel

theorem ofText_print_fade :
    PrintableRules [([], fade), (['\n'], fade)] [' '] ∧
      (Stylesheet.ofText (String.ofList (printRules [([], fade), (['\n'], fade)] [' ']))).diagnostics = [] ∧
      (Stylesheet.ofText (String.ofList (printRules [([], fade), (['\n'], fade)] [' ']))).rules.map Rule.unplaced =
        [.keyframes fade, .keyframes fade] := by
  have h : PrintableRules [([], fade), (['\n'], fade)] [' '] :=
    ⟨by simp [printable_fade], by simp [isBlank, Text.isNewline], by simp [isBlank]⟩
  exact ⟨h, ofText_print [([], fade), (['\n'], fade)] [' '] h⟩

end Timeline.Sheet
