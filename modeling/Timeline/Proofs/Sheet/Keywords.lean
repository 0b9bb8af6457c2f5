import Timeline.Proofs.Collection
import Timeline.Proofs.Css.Comment
import Timeline.Proofs.Css.Excerpt
import Timeline.Proofs.Sheet.Soundness
import Timeline.Proofs.Text.Trimming

/-! Which keyframes keywords begin a rule.

Outside of all blocks a keyword stands either between two rules or in the prelude of one. Which of the two
is said here of the component values alone, from the front on: the first value of a rule opens its prelude,
and a curly block or, behind an at-keyword, a semicolon closes it again. A step of the reader that finds nothing wrong
makes a rule of a keyword between rules, and of no other (`standing_step`). Along a run this gives the keyframes
rules of a stylesheet (`keyframes_eq_standing`). -/
namespace Timeline

open Css (Bracket Content Kind Mark Passage Step Token)
open Sheet (KeyframesRule Rule Stylesheet vendor?)
open Sheet.Grammar (NoAtKeyword shown)
open Text (Position)

namespace Sheet

/-! ### Preludes -/

/-- The prelude that is open, if one is, and the kind of rule that it belongs to. -/
inductive Prelude where
  | closed
  | keyframes
  | atRule
  | style
deriving DecidableEq, Repr

namespace Prelude

/-- What is open behind a token. -/
def behindToken (prelude : Prelude) (kind : Kind) : Prelude :=
  match prelude with
  | closed =>
    match kind with
    | .blank | .comment _ => closed
    | .atKeyword keyword => if (vendor? keyword).isSome then keyframes else atRule
    | _ => style
  | style => style
  | keyframes => if kind = .semicolon then closed else keyframes
  | atRule => if kind = .semicolon then closed else atRule

theorem behindToken_keyframes {keyword vendor : String} (h : vendor? keyword = some vendor) :
    closed.behindToken (.atKeyword keyword) = keyframes := by
  simp [behindToken, h]

theorem behindToken_atRule {keyword : String} (h : vendor? keyword = none) :
    closed.behindToken (.atKeyword keyword) = atRule := by
  simp [behindToken, h]

/-- What is open behind a block. -/
def behindBlock (prelude : Prelude) (bracket : Bracket) : Prelude :=
  if bracket = .curly then closed else if prelude = closed then style else prelude

/-- What closes a prelude. -/
def ends : Prelude → List Mark
  | style => [.curlyBlock]
  | _ => [.semicolon, .curlyBlock]

end Prelude

/-! ### Keywords -/

/-- A keyframes keyword: where it stands, its vendor, the name behind it, and the prelude that it stands in. -/
structure Keyword where
  start : Position
  vendor : Option String
  name : Option String
  inside : Prelude
deriving DecidableEq, Repr

/-- The keyword that a rule begins with. -/
def Keyword.ofRule (rule : KeyframesRule) : Keyword := ⟨rule.span.start, rule.vendor, some rule.name, .closed⟩

/-- The name in front, after blanks and comments. -/
def nameAhead? (c : Content) : Option String :=
  match c.skipTrivia with
  | .token ⟨.ident name, _⟩ _ => some name
  | .token ⟨.string name, _⟩ _ => some name
  | _ => none

/-- A token as a keyframes keyword, if it is one. -/
def keyword? (inside : Prelude) (start : Position) (t : Token) (rest : Content) : Option Keyword :=
  match t.kind with
  | .atKeyword keyword => (vendor? keyword).map fun vendor => ⟨start, shown vendor, nameAhead? rest, inside⟩
  | _ => none

/-- The keyframes keywords outside of all blocks, in order. -/
def keywords (inside : Prelude) (start : Position) : Content → List Keyword
  | .nil => []
  | .token t rest =>
    (keyword? inside start t rest).toList ++ keywords (inside.behindToken t.kind) (start.advance t.text) rest
  | .block b opening body closing rest =>
    keywords (inside.behindBlock b) ((Content.block b opening body closing .nil).after start) rest

/-- The keyframes keywords of a text outside of all blocks. -/
def keywordsOf (source : String) : List Keyword := keywords .closed .origin (Content.ofText source.toList)

/-- Those that stand in preludes of one kind, or in none. -/
def standing (kept inside : Prelude) (start : Position) (c : Content) : List Keyword :=
  (keywords inside start c).filter (·.inside = kept)

/-- No at-keyword at any depth. -/
def NoAtKeywords (c : Content) : Prop := ∀ t ∈ c.tokens, ∀ keyword, t.kind ≠ .atKeyword keyword

variable {kept inside : Prelude} {start : Position} {c d rest : Content} {t : Token}

/-- A token that does not count: one in a prelude of another kind, or no at-keyword. -/
theorem standing_token (h : inside ≠ kept ∨ ∀ keyword, t.kind ≠ .atKeyword keyword) :
    standing kept inside start (.token t rest) =
      standing kept (inside.behindToken t.kind) (start.advance t.text) rest := by
  have hnone : (keyword? inside start t rest).toList.filter (·.inside = kept) = [] := by
    unfold keyword?
    split
    · rename_i keyword hk
      cases vendor? keyword with
      | none => rfl
      | some vendor => simp [h.resolve_right fun hno => hno keyword hk]
    · rfl
  rw [standing, keywords, List.filter_append, hnone]
  rfl

/-- A curly block closes every prelude. -/
theorem standing_curly {opening : Token} {body : Content} {closing : Option Token} :
    standing kept inside start (.block .curly opening body closing rest) =
      standing kept .closed ((Content.block .curly opening body closing .nil).after start) rest := rfl

theorem behindToken_of_open (h : inside ≠ .closed) (ht : Mark.found inside.ends t.mark? = false) :
    inside.behindToken t.kind = inside := by
  obtain ⟨kind, text⟩ := t
  cases inside with
  | closed => exact absurd rfl h
  | style => rfl
  | keyframes => cases kind <;> first | rfl | cases ht
  | atRule => cases kind <;> first | rfl | cases ht

theorem behindBlock_of_open {b : Bracket} (h : inside ≠ .closed) (hb : Mark.found inside.ends b.mark? = false) :
    inside.behindBlock b = inside := by
  have hcurly : b ≠ .curly := by
    rintro rfl
    cases inside <;> cases hb
  rw [Prelude.behindBlock, if_neg hcurly, if_neg h]

/-- What is open stays open up to its end. -/
theorem standing_append (h : inside ≠ .closed) (hf : c.Free inside.ends) (hno : inside ≠ kept ∨ NoAtKeywords c)
    (d : Content) : standing kept inside start (c.append d) = standing kept inside (c.after start) d := by
  induction c generalizing start with
  | nil => rfl
  | token t rest ih =>
    obtain ⟨ht, hrest⟩ := Content.free_token.mp hf
    rw [Content.append, standing_token (hno.imp_right fun hno => hno t (by simp [Content.tokens])),
      behindToken_of_open h ht]
    exact ih hrest (hno.imp_right fun hno t ht => hno t (by simp [Content.tokens, ht]))
  | block b opening body closing rest _ ih =>
    obtain ⟨hb, hrest⟩ := Content.free_block.mp hf
    show standing kept (inside.behindBlock b) _ _ = _
    rw [behindBlock_of_open h hb]
    exact ih hrest (hno.imp_right fun hno t ht => hno t (by simp [Content.tokens, ht]))

theorem noAtKeywords_of_isTrivia (hl : c.IsTrivia) : NoAtKeywords c := by
  induction c with
  | nil => simp [NoAtKeywords, Content.tokens]
  | token t rest ih =>
    refine List.forall_mem_cons.mpr ⟨fun keyword hk => ?_, ih hl.2⟩
    have ht : t.kind.isTrivia = true := hl.1
    rw [hk] at ht
    cases ht
  | block => exact hl.elim

theorem standing_trivia (hl : c.IsTrivia) (d : Content) :
    standing kept .closed start (c.append d) = standing kept .closed (c.after start) d := by
  induction c generalizing start with
  | nil => rfl
  | token t rest ih =>
    have hstays : Prelude.closed.behindToken t.kind = .closed := by
      obtain ⟨kind, text⟩ := t
      have hk : kind.isTrivia = true := hl.1
      cases kind <;> first | rfl | cases hk
    rw [Content.append, standing_token (.inr (noAtKeywords_of_isTrivia hl t (by simp [Content.tokens]))), hstays]
    exact ih hl.2
  | block => exact hl.elim

/-- A rule without an at-keyword opens its prelude at once. -/
theorem standing_style (hs : c.Significant) (hk : NoAtKeyword c) :
    standing kept .closed start c = standing kept .style start c := by
  cases c with
  | nil => exact hs.elim
  | token t rest =>
    obtain ⟨kind, text⟩ := t
    have hne : ∀ keyword, kind ≠ .atKeyword keyword := by
      rintro keyword rfl
      exact hk
    have hopens : Prelude.closed.behindToken kind = .style := by
      cases kind <;> first | rfl | exact absurd rfl (hne _) | cases hs
    rw [standing_token (.inr hne), standing_token (.inr hne), hopens]
    rfl
  | block b opening body closing rest => cases b <;> rfl

/-! ### One rule -/

namespace Rule

/-- The keywords that the keyframes rules of a step begin with. -/
def keyframesOf (s : Step Rule) : List Keyword := (s.items.filterMap keyframes?).map Keyword.ofRule

variable {p : Passage} {s : Step Rule}

theorem standing_frame {f : Css.Passage.Frame} (h : p.frame? = some f) :
    standing .closed inside p.start p.content = standing .closed .closed f.rest.start f.rest.content := by
  unfold Passage.frame? at h
  split at h
  · rename_i opening body closing rest hc
    obtain rfl := Option.some.inj h
    rw [hc, standing_curly]
    cases closing <;> rfl
  · cases h

/-- Up to marks that no less than close what is open. -/
theorem standing_past (marks : List Mark) (h : inside ≠ .closed) (hm : ∀ m ∈ inside.ends, m ∈ marks) :
    standing .closed inside p.start p.content = standing .closed inside (p.past marks).start (p.past marks).content := by
  have hfree : (p.content.upTo marks).Free inside.ends := (Content.free_upTo _).mono hm
  have hsplit : standing .closed inside p.start ((p.content.upTo marks).append (p.content.past marks)) =
      standing .closed inside (p.past marks).start (p.past marks).content := standing_append h hfree (.inl h) _
  rwa [Content.upTo_append_past] at hsplit

theorem standing_skipTrivia (p : Passage) :
    standing .closed .closed p.start p.content = standing .closed .closed p.skipTrivia.start p.skipTrivia.content := by
  have hsplit : standing .closed .closed p.start (p.content.trivia.append p.content.skipTrivia) =
      standing .closed .closed p.skipTrivia.start p.skipTrivia.content := standing_trivia p.content.isTrivia_trivia _
  rwa [Content.trivia_append_skipTrivia] at hsplit

theorem standing_styleRule (hd : (styleRule p).diagnostics = []) (hs : p.content.Significant) (hk : NoAtKeyword p.content) :
    standing .closed .closed p.start p.content =
      keyframesOf (styleRule p) ++ standing .closed .closed (styleRule p).rest.start (styleRule p).rest.content := by
  rw [standing_style hs hk, standing_past [.curlyBlock, .closer] (by decide) (by decide)]
  unfold styleRule at hd ⊢
  dsimp only at hd ⊢
  split
  · rename_i f hf
    exact standing_frame hf
  · rename_i hf
    simp [hf] at hd

/-- The prelude of another rule with an at-keyword, to its end. -/
theorem standing_afterAtKeyword {start : Position} {keyword : String} (hp : p.content.Free [.closer]) :
    standing .closed .atRule p.start p.content = keyframesOf (afterAtKeyword start keyword p) ++
      standing .closed .closed (afterAtKeyword start keyword p).rest.start (afterAtKeyword start keyword p).rest.content := by
  rw [standing_past [.semicolon, .curlyBlock, .closer] (by decide) (by decide)]
  unfold afterAtKeyword
  dsimp only
  split
  · rename_i f hf
    exact standing_frame hf
  · rename_i hf
    rcases atEnd_cases hp hf with hc | ⟨text, rest, hc⟩
    · simp only [Passage.skipSemicolon, hc]
      rfl
    · simp only [Passage.skipSemicolon, hc]
      exact standing_token (.inl (by decide))

theorem standing_nameInFront {start : Position} {name : String} {q : Passage}
    (h : nameInFront start p.skipTrivia = (name, [], q)) :
    nameAhead? p.content = some name ∧ standing .closed .keyframes p.start p.content = standing .closed .keyframes q.start q.content := by
  have hsplit : standing .closed .keyframes p.start (p.content.trivia.append p.content.skipTrivia) =
      standing .closed .keyframes p.skipTrivia.start p.skipTrivia.content :=
    standing_append (by decide) p.content.isTrivia_trivia.free (.inl (by decide)) _
  rw [Content.trivia_append_skipTrivia] at hsplit
  rw [hsplit]
  unfold nameInFront at h
  split at h
  · rename_i text rest hc
    simp only [Prod.mk.injEq, true_and] at h
    obtain ⟨rfl, rfl⟩ := h
    rw [hc, nameAhead?, show p.content.skipTrivia = _ from hc]
    exact ⟨rfl, standing_token (.inl (by decide))⟩
  · rename_i text rest hc
    simp only [Prod.mk.injEq, true_and] at h
    obtain ⟨rfl, rfl⟩ := h
    rw [hc, nameAhead?, show p.content.skipTrivia = _ from hc]
    exact ⟨rfl, standing_token (.inl (by decide))⟩
  · simp at h

/-- The prelude of a keyframes rule, with its name, and its block. -/
theorem standing_afterKeyframes {start : Position} {vendor : String}
    (hd : (afterKeyframes start (shown vendor) p).diagnostics = []) :
    ⟨start, shown vendor, nameAhead? p.content, .closed⟩ :: standing .closed .keyframes p.start p.content =
      keyframesOf (afterKeyframes start (shown vendor) p) ++
        standing .closed .closed (afterKeyframes start (shown vendor) p).rest.start
          (afterKeyframes start (shown vendor) p).rest.content := by
  unfold afterKeyframes at hd ⊢
  generalize hn : nameInFront start p.skipTrivia = found at hd ⊢
  obtain ⟨name, nameless, trailing⟩ := found
  dsimp only at hd ⊢
  split at hd
  · rename_i f hf
    simp only [List.append_eq_nil_iff] at hd
    obtain ⟨⟨⟨⟨⟨-, rfl⟩, -⟩, -⟩, -⟩, -⟩ := hd
    obtain ⟨hname, hopens⟩ := standing_nameInFront hn
    rw [hname, hopens, standing_past [.curlyBlock, .semicolon, .closer] (by decide) (by decide), standing_frame hf]
    rfl
  · simp at hd

variable {p : Passage} {s : Step Rule}

theorem standing_step (h : next p = some s) (hp : p.content.Free [.closer]) (hd : s.diagnostics = []) :
    standing .closed .closed p.start p.content = keyframesOf s ++ standing .closed .closed s.rest.start s.rest.content := by
  rw [standing_skipTrivia]
  have hsplit := Content.trivia_append_skipTrivia p.content
  unfold next at h
  dsimp only at h
  split at h
  · cases h
  · obtain rfl := Option.some.inj h
    simp at hd
  · rename_i keyword text rest hc
    obtain rfl := Option.some.inj h
    have hrest : rest.Free [.closer] := by
      rw [← hsplit, show p.content.skipTrivia = _ from hc] at hp
      exact (Content.free_token.mp (Content.free_append.mp hp).2).2
    replace hd := (List.append_eq_nil_iff.mp hd).2
    rw [hc]
    cases hv : vendor? keyword with
    | some vendor =>
      simp only [hv] at hd ⊢
      refine Eq.trans ?_ (standing_afterKeyframes hd)
      rw [standing, keywords, Prelude.behindToken_keyframes hv]
      simp [standing, keyword?, hv]
    | none =>
      dsimp only
      refine Eq.trans ?_ (standing_afterAtKeyword hrest)
      rw [standing, keywords, Prelude.behindToken_atRule hv]
      simp [standing, keyword?, hv]
  · rename_i hnil hclosing hat
    obtain rfl := Option.some.inj h
    exact standing_styleRule (List.append_eq_nil_iff.mp hd).2 (Content.significant_skipTrivia hnil) (noAtKeyword_of_ne hat)

/-- Along a run without faults, every keyword between rules begins a rule, and no other does. -/
theorem standing_run (p : Passage) (h : (reader.run p).diagnostics = []) :
    ((reader.run p).items.filterMap keyframes?).map Keyword.ofRule = standing .closed .closed p.start p.content := by
  fun_induction reader.run p with
  | case1 p hn =>
    have htrivia : p.content.IsTrivia := isTrivia_of_next hn
    have hopens : standing .closed .closed p.start (p.content.append .nil) = [] := standing_trivia htrivia .nil
    rw [Content.append_nil] at hopens
    rw [hopens]
    rfl
  | case2 p s hn _ more ih =>
    obtain ⟨hs, hmore⟩ := List.append_eq_nil_iff.mp h
    have hp : p.content.diagnostics p.start = [] := by
      have := reader.run_extends crossing p
      rw [reader.run_of_some hn] at this
      exact (h ▸ this).eq_nil
    rw [List.filterMap_append, List.map_append, ih hmore,
      standing_step hn (Content.free_closer_of_diagnostics hp) hs]
    rfl

end Rule

/-! ### Preludes of keyframes rules -/

/-- At-keywords show their sign. -/
def ShowsAt (c : Content) : Prop := ∀ t ∈ c.tokens, ∀ keyword, t.kind = .atKeyword keyword → '@' ∈ t.text

/-- An at-keyword is not lost from an excerpt. -/
theorem noAtKeywords_of_excerpt (hs : ShowsAt c) (h : c.excerpt = []) : NoAtKeywords c := by
  intro t ht keyword hk
  have hmem := Css.mem_strip ht (by rw [hk]; rfl) (hs t ht keyword hk) false false
  exact absurd (Text.isWhiteSpace_of_trim h '@' hmem) (by decide)

theorem ShowsAt.of_append (h : ShowsAt (c.append d)) : ShowsAt c ∧ ShowsAt d := by
  rw [ShowsAt, Content.tokens_append, List.forall_mem_append] at h
  exact h

theorem ShowsAt.of_token (h : ShowsAt (.token t rest)) : ShowsAt rest := fun t ht => h t (by simp [Content.tokens, ht])

theorem ShowsAt.of_block {b : Bracket} {opening : Token} {body : Content} {closing : Option Token}
    (h : ShowsAt (.block b opening body closing rest)) : ShowsAt rest := fun t ht => h t (by simp [Content.tokens, ht])

/-- A name, and nothing that could be a keyword, up to the block of a keyframes rule. -/
theorem standing_named {gap extra body : Content} {named opening : Token} {name : String} {closing : Option Token}
    (hg : gap.IsTrivia) (hn : Grammar.Names named name) (hf : extra.Free [.curlyBlock, .semicolon])
    (hextra : NoAtKeywords extra) :
    ∃ next, standing .keyframes .keyframes start
        (gap.append (.token named (extra.append (.block .curly opening body closing rest)))) =
      standing .keyframes .closed next rest := by
  have hnamed : ∀ keyword, named.kind ≠ .atKeyword keyword := by
    rcases hn with hn | hn <;> simp [hn]
  have hmark : Mark.found (Prelude.ends .keyframes) named.mark? = false := by
    rcases hn with hn | hn <;> simp [Token.mark?, hn, Mark.found]
  have hno : NoAtKeywords (gap.append (.token named extra)) := by
    rw [NoAtKeywords, Content.tokens_append, List.forall_mem_append]
    exact ⟨noAtKeywords_of_isTrivia hg, List.forall_mem_cons.mpr ⟨hnamed, hextra⟩⟩
  have hfree : (gap.append (.token named extra)).Free (Prelude.ends .keyframes) :=
    Content.free_append.mpr ⟨hg.free, Content.free_token.mpr ⟨hmark, hf.mono (by decide)⟩⟩
  have hsplit : gap.append (.token named (extra.append (.block .curly opening body closing rest))) =
      (gap.append (.token named extra)).append (.block .curly opening body closing rest) := by
    rw [Content.append_assoc]
    rfl
  rw [hsplit, standing_append (by decide) hfree (.inr hno), standing_curly]
  exact ⟨_, rfl⟩

/-- In content that follows the grammar, no keyword stands in the prelude of a keyframes rule. -/
theorem standing_keyframes_eq_nil {found : List Rule} (h : Grammar.Rules c found) (hs : ShowsAt c) (start : Position) :
    standing .keyframes .closed start c = [] := by
  induction h generalizing start with
  | @done c hl =>
    rw [← Content.append_nil c, standing_trivia hl]
    rfl
  | @keyframes lead gap extra body rest keyword vendor name text named opening closing blocks others span
      hl hv hg hn hf ht _ _ ih =>
    obtain ⟨hextra, hblock⟩ := hs.of_append.2.of_token.of_append.2.of_token.of_append
    rw [standing_trivia hl, standing_token (.inl (by decide)), Prelude.behindToken_keyframes hv]
    obtain ⟨next, hnext⟩ := standing_named hg hn hf (noAtKeywords_of_excerpt hextra ht)
    exact hnext.trans (ih hblock.of_block next)
  | @atBlock lead skipped body rest keyword text opening closing others span hl hv hf _ ih =>
    have hblock := hs.of_append.2.of_token.of_append.2
    replace hf : skipped.Free (Prelude.ends .atRule) := hf
    rw [standing_trivia hl, standing_token (.inl (by decide)), Prelude.behindToken_atRule hv,
      standing_append (by decide) hf (.inl (by decide)), standing_curly]
    exact ih hblock.of_block _
  | @atSemicolon lead skipped rest keyword text semicolon others span hl hv hf _ ih =>
    have hlast := hs.of_append.2.of_token.of_append.2
    replace hf : skipped.Free (Prelude.ends .atRule) := hf
    rw [standing_trivia hl, standing_token (.inl (by decide)), Prelude.behindToken_atRule hv,
      standing_append (by decide) hf (.inl (by decide)), standing_token (.inl (by decide))]
    exact ih hlast.of_token _
  | @atEnd lead skipped keyword text span hl hv hf =>
    replace hf : skipped.Free (Prelude.ends .atRule) := hf
    rw [standing_trivia hl, standing_token (.inl (by decide)), Prelude.behindToken_atRule hv, ← Content.append_nil skipped,
      standing_append (by decide) hf (.inl (by decide))]
    rfl
  | @style lead prelude body rest opening closing others span hl hsig hk hf _ _ ih =>
    have hblock := hs.of_append.2.of_append.2
    replace hf : prelude.Free (Prelude.ends .style) := hf
    rw [standing_trivia hl, standing_style (hsig.append _) ((Grammar.noAtKeyword_append hsig).mpr hk),
      standing_append (by decide) hf (.inl (by decide)), standing_curly]
    exact ih hblock.of_block _

/-! ### Stylesheets -/

/-- **Keyframes rules and keyframes keywords**: in a text without faults every keyframes keyword outside of all blocks
begins a keyframes rule, or stands in the prelude of a style rule or of another rule with an at-keyword. The rules
stand in the order of their keywords and have their vendors and the names behind them, and the
distinct names are those of a conversion. -/
theorem keyframes_eq_standing (source : String) (h : (Stylesheet.ofText source).diagnostics = []) :
    (Stylesheet.ofText source).keyframes.map Keyword.ofRule = (keywordsOf source).filter (·.inside = .closed) ∧
    (∀ keyword ∈ keywordsOf source, keyword.inside ≠ .keyframes) ∧
    ∀ options animations, (convert source options).result = .ok animations →
      animations.names = (((keywordsOf source).filter (·.inside = .closed)).filterMap (·.name)).eraseDups := by
  have hrules : (Stylesheet.ofText source).keyframes.map Keyword.ofRule =
      (keywordsOf source).filter (·.inside = .closed) := Rule.standing_run (.ofText source.toList) h
  refine ⟨hrules, ?_, fun options animations hok => ?_⟩
  · intro keyword hmem hinside
    have hshows : ShowsAt (Content.ofText source.toList) := by
      rw [ShowsAt, Content.ofText, Content.tokens_ofTokens]
      exact Css.at_mem_of_mem_lex
    have hnil := standing_keyframes_eq_nil (Rule.sound (.ofText source.toList) h) hshows .origin
    exact List.filter_eq_nil_iff.mp hnil keyword hmem (decide_eq_true hinside)
  · rw [convert_result] at hok
    rw [(convertSheet_follows _ _).names animations hok, ← hrules, List.filterMap_map]
    exact congrArg List.eraseDups (congrFun List.filterMap_eq_map _).symm

/-- An at-rule without a semicolon and a rule that it does not hide. -/
theorem keyframes_eq_standing_import :
    let source := "@import \"a.css\" @keyframes a \x7b from \x7b top: 0 \x7d \x7d @keyframes b \x7b to \x7b top: 1px \x7d \x7d"
    (Stylesheet.ofText source).diagnostics = [] ∧
      (Stylesheet.ofText source).keyframes.map Keyword.ofRule = (keywordsOf source).filter (·.inside = .closed) := by
  intro source
  have h : (Stylesheet.ofText source).diagnostics = [] := by decide +kernel
  exact ⟨h, (keyframes_eq_standing source h).1⟩

/-- The prelude of a rule without a semicolon takes the keyword behind it. -/
theorem keyword_in_prelude : ¬∀ source : String, (Stylesheet.ofText source).diagnostics = [] →
    (Stylesheet.ofText source).keyframes.map (·.span.start) = (keywordsOf source).map (·.start) := by
  intro h
  have hsource := h
    "@import \"a.css\" @keyframes a \x7b from \x7b top: 0 \x7d \x7d @keyframes b \x7b to \x7b top: 1px \x7d \x7d"
    (by decide +kernel)
  revert hsource
  decide +kernel

end Sheet

end Timeline
