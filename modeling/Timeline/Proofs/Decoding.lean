import Timeline.Animation.Animations
import Timeline.Proofs.Collection
import Timeline.Proofs.Json.Numbers

/-! The text of animations, read back.

Both layouts give the same object: the names in their order, under each name an array with an object for
every frame, and in each of these the offset in front of the properties. No object has a key twice,
because no catalog has a name twice and the property `offset` gives way to the offset. Animations that
were collected from rules are told apart by their text exactly as far as it shows them: up to the sign of
zero, up to what is not finite, and up to properties of that name (`text_decodes`). -/
namespace Timeline.Animation

open Json (Value)
open Number (Double)

variable {α β γ : Type}

/-- Lists that one function tells apart as far as another one does have the same images under both. -/
theorem map_eq_map_iff {f : α → β} {g : α → γ} {xs ys : List α} (h : ∀ x ∈ xs, ∀ y ∈ ys, f x = f y ↔ g x = g y) :
    xs.map f = ys.map f ↔ xs.map g = ys.map g := by
  induction xs generalizing ys with
  | nil => cases ys <;> simp
  | cons x xs ih =>
    cases ys with
    | nil => simp
    | cons y ys =>
      have hhead := h x List.mem_cons_self y List.mem_cons_self
      have htail := ih fun x hx y hy => h x (List.mem_cons_of_mem _ hx) y (List.mem_cons_of_mem _ hy)
      rw [List.map_cons, List.map_cons, List.map_cons, List.map_cons, List.cons.injEq, List.cons.injEq, hhead, htail]

/-! ### Offsets -/

theorem canonical_parse? {text : List Char} {x : Double} (h : Number.parse? text = some x) : x.IsCanonical := by
  unfold Number.parse? at h
  split at h
  · obtain rfl := Option.some.inj h
    exact Double.canonical_ofDecimal _ _ _
  · cases h

theorem canonical_leadingNumber? {text : List Char} {x : Double} (h : leadingNumber? text = some x) :
    x.IsCanonical := by
  obtain ⟨⟨sign, unsigned⟩, -, h⟩ := Option.bind_eq_some_iff.mp h
  dsimp only at h
  split at h
  · obtain rfl := Option.some.inj h
    trivial
  split at h
  · obtain rfl := Option.some.inj h
    trivial
  · obtain ⟨⟨number, rest⟩, -, rfl⟩ := Option.map_eq_some_iff.mp h
    cases hp : Number.parse? number with
    | none => trivial
    | some x => exact canonical_parse? hp

theorem canonical_leadingNumber (text : List Char) : (leadingNumber text).IsCanonical := by
  unfold leadingNumber
  cases h : leadingNumber? text with
  | none => trivial
  | some x => exact canonical_leadingNumber? h

/-- Offsets are numbers in their one form. -/
theorem Offset.canonical_ofSelector (selector : String) : (Offset.ofSelector selector).IsCanonical := by
  unfold Offset.ofSelector
  split
  · exact Double.canonical_ofDecimal false 0 0
  split
  · exact Double.canonical_ofDecimal false 100 0
  · exact canonical_leadingNumber selector.toList

/-! ### Frames -/

namespace Frame

/-- The properties that are shown beside the offset. -/
def shown (frame : Frame) : List (String × String) := frame.properties.entries.filter (·.1 ≠ "offset")

/-- What a text shows of a frame: the value of its offset and the properties beside it. -/
def seen (frame : Frame) : Option ℚ × List (String × String) := (frame.offset.value?, frame.shown)

/-- The object of a frame. -/
structure ShownAs (frame : Frame) (value : Value) : Prop where
  members : ∃ offset, Json.Writes frame.offset offset ∧
    value = .object (("offset", offset) :: frame.shown.map fun (property, text) => (property, .string text))
  keys_nodup : ("offset" :: frame.shown.map Prod.fst).Nodup

theorem shownAs_toJson {frame : Frame} (h : frame.offset.IsCanonical) : frame.ShownAs frame.toJson where
  members := ⟨_, Json.writes_ofDouble h, rfl⟩
  keys_nodup := by
    rw [List.nodup_cons]
    refine ⟨?_, (List.filter_sublist.map Prod.fst).nodup frame.properties.names_nodup⟩
    intro hm
    obtain ⟨entry, he, hoffset⟩ := List.mem_map.mp hm
    have hne := (List.mem_filter.mp he).2
    rw [hoffset] at hne
    cases hne

/-- A property beside the offset. -/
theorem text_injective : Function.Injective fun entry : String × String => (entry.1, Value.string entry.2) := by
  intro a b h
  obtain ⟨hname, hvalue⟩ := Prod.mk.inj h
  exact Prod.ext hname (Value.string.inj hvalue)

theorem toJson_eq_iff {a b : Frame} (ha : a.offset.IsCanonical) (hb : b.offset.IsCanonical) :
    a.toJson = b.toJson ↔ a.seen = b.seen := by
  rw [toJson, toJson, Value.object.injEq, List.cons.injEq, Prod.mk.injEq, eq_self, true_and,
    Json.ofDouble_eq_iff ha hb, seen, seen, Prod.mk.injEq]
  exact and_congr_right fun _ => List.map_inj_right fun _ _ h => text_injective h

theorem isWritable_toJson (frame : Frame) : frame.toJson.IsWritable := by
  refine (Json.membersWritable_iff _).mpr (List.forall_mem_cons.mpr ⟨Json.isWritable_ofDouble _, ?_⟩)
  intro member hm
  obtain ⟨entry, -, rfl⟩ := List.mem_map.mp hm
  trivial

theorem listJson_eq_iff {a b : List Frame} (ha : ∀ frame ∈ a, frame.offset.IsCanonical)
    (hb : ∀ frame ∈ b, frame.offset.IsCanonical) : listJson a = listJson b ↔ a.map seen = b.map seen := by
  rw [listJson, listJson, Value.array.injEq]
  exact map_eq_map_iff fun x hx y hy => toJson_eq_iff (ha x hx) (hb y hy)

end Frame

/-! ### Animations -/

namespace Animations

/-- Animations that come from rules. -/
def Collected (animations : Animations) : Prop := ∃ policy rules, (collect policy rules).result = .ok animations

/-- What a text shows of animations. -/
def seen (animations : Animations) : List (String × List (Option ℚ × List (String × String))) :=
  animations.entries.map fun (name, frames) => (name, frames.map Frame.seen)

variable {animations other : Animations}

theorem Collected.eq_ofRules (h : animations.Collected) : ∃ policy rules, animations = ofRules policy rules := by
  obtain ⟨policy, rules, h⟩ := h
  rw [collect, addRules_result] at h
  split at h
  · cases h
  · exact ⟨policy, rules, (Except.ok.inj h).symm⟩

theorem canonical_of_mem_framesUnder {policy : DuplicateNames} {rules : List Sheet.KeyframesRule} {name : String}
    {frame : Frame} (h : frame ∈ framesUnder policy rules name) : frame.offset.IsCanonical := by
  have hrule : ∀ rule : Sheet.KeyframesRule, frame ∈ rule.expectedFrames → frame.offset.IsCanonical := by
    intro rule hframe
    obtain ⟨block, -, hblock⟩ := List.mem_flatMap.mp hframe
    obtain ⟨selector, -, rfl⟩ := List.mem_map.mp hblock
    exact Offset.canonical_ofSelector selector
  cases policy with
  | concatenate =>
    obtain ⟨rule, -, hframe⟩ := List.mem_flatMap.mp h
    exact hrule rule hframe
  | overwrite =>
    rw [framesUnder] at h
    cases hlast : (rules.filter (·.name = name)).getLast? with
    | none =>
      simp only [hlast] at h
      cases h
    | some rule =>
      simp only [hlast] at h
      exact hrule rule h

theorem Collected.canonical (h : animations.Collected) :
    ∀ entry ∈ animations.entries, ∀ frame ∈ entry.2, frame.offset.IsCanonical := by
  obtain ⟨policy, rules, rfl⟩ := h.eq_ofRules
  rw [entries_ofRules]
  intro entry he frame hframe
  obtain ⟨name, -, rfl⟩ := List.mem_map.mp he
  exact canonical_of_mem_framesUnder hframe

theorem toJson_eq_iff (ha : animations.Collected) (hb : other.Collected) :
    animations.toJson = other.toJson ↔ animations.seen = other.seen := by
  rw [toJson, toJson, Value.object.injEq]
  refine map_eq_map_iff fun x hx y hy => ?_
  rw [Prod.mk.injEq, Prod.mk.injEq, Frame.listJson_eq_iff (ha.canonical x hx) (hb.canonical y hy)]

theorem isWritable_toJson (animations : Animations) : animations.toJson.IsWritable := by
  refine (Json.membersWritable_iff _).mpr ?_
  intro member hm
  obtain ⟨entry, -, rfl⟩ := List.mem_map.mp hm
  refine (Json.areWritable_iff _).mpr ?_
  intro object ho
  obtain ⟨frame, -, rfl⟩ := List.mem_map.mp ho
  exact Frame.isWritable_toJson frame

/-- **The text of animations shows them.** In either layout a reader of JSON finds the names in order, under
each name the frames in order, and in each frame its offset and its properties. -/
theorem text_decodes (animations : Animations) (h : animations.Collected) :
    ∃ members : List (String × Value),
      (∀ isPretty, Json.read? (animations.text isPretty) = some (.object members)) ∧
      members.map Prod.fst = animations.names ∧ animations.names.Nodup ∧
      List.Forall₂ (fun frames value => ∃ objects, value = .array objects ∧ List.Forall₂ Frame.ShownAs frames objects)
        (animations.entries.map Prod.snd) (members.map Prod.snd) ∧
      ∀ other : Animations, other.Collected → ∀ isPretty : Bool,
        Json.read? (other.text isPretty) = some (.object members) ↔ animations.seen = other.seen := by
  have hread : ∀ (a : Animations) (isPretty : Bool), Json.read? (a.text isPretty) = some a.toJson := by
    intro a isPretty
    exact Json.read?_text a.toJson a.isWritable_toJson isPretty
  refine ⟨_, hread animations, ?_, animations.names_nodup, ?_, ?_⟩
  · rw [List.map_map]
    rfl
  · rw [List.map_map, List.forall₂_map_left_iff, List.forall₂_map_right_iff, List.forall₂_same]
    intro entry he
    refine ⟨_, rfl, ?_⟩
    rw [List.forall₂_map_right_iff, List.forall₂_same]
    exact fun frame hframe => Frame.shownAs_toJson (h.canonical entry he frame hframe)
  · intro other hother isPretty
    rw [hread, Option.some.injEq, ← toJson_eq_iff h hother]
    exact eq_comm

theorem text_decodes_nameless_property :
    let rules : List Sheet.KeyframesRule :=
      [⟨"a", none, [⟨["50.5%", "from"], [⟨"offset", "1", default⟩, ⟨"", "\"", default⟩], default⟩], default⟩]
    let animations := ofRules .overwrite rules
    animations.Collected ∧ ∃ members : List (String × Value),
      (∀ isPretty, Json.read? (animations.text isPretty) = some (.object members)) ∧ members.map Prod.fst = ["a"] := by
  intro rules animations
  have h : animations.Collected := ⟨.overwrite, rules, rfl⟩
  obtain ⟨members, hread, hnames, -⟩ := text_decodes animations h
  exact ⟨h, members, hread, hnames.trans (names_ofRules .overwrite rules)⟩

end Animations

end Timeline.Animation
