import Mathlib.Order.Basic
import Timeline.Text.Position

/-! Spans in order.

Going on in a text never leads back (`Position.le_advance`). So what is found from place to place has its spans one
behind the other (`Arranged.append`). -/
namespace Timeline.Text

/-! ### The order of places -/

namespace Position

instance : LE Position := ⟨fun p q => p.le q = true⟩

variable {p q : Position}

theorem le_iff : p ≤ q ↔ p.line < q.line ∨ p.line = q.line ∧ p.column ≤ q.column := by
  show p.le q = true ↔ _
  simp [le]

instance : Preorder Position where
  le_refl p := le_iff.mpr (.inr ⟨rfl, Nat.le_refl _⟩)
  le_trans p q r hpq hqr := by
    rw [le_iff] at *
    omega

theorem le_nextLine (p : Position) : p ≤ p.nextLine := le_iff.mpr (.inl (Nat.lt_succ_self p.line))

/-- The place after a text is not before the place where it begins. -/
theorem le_advance (p : Position) (cs : List Char) : p ≤ p.advance cs := by
  fun_induction advance p cs with
  | case1 p => exact le_refl p
  | case2 p rest ih => exact p.le_nextLine.trans ih
  | case3 p c rest _ _ ih => exact p.le_nextLine.trans ih
  | case4 p c rest _ _ ih =>
    have hcolumn : p ≤ ⟨p.line, p.column + units c⟩ := le_iff.mpr (.inr ⟨rfl, Nat.le_add_right _ _⟩)
    exact hcolumn.trans ih

end Position

/-! ### Spans between two places -/

variable {first middle last : Position}

/-- A span that does not run backwards and lies between two places. -/
structure Span.Within (first last : Position) (s : Span) : Prop where
  first_le : first ≤ s.start
  start_le : s.start ≤ s.stop
  le_last : s.stop ≤ last

theorem Span.Within.mono {s : Span} {before behind : Position} (h : s.Within first last) (hbefore : before ≤ first)
    (hbehind : last ≤ behind) : s.Within before behind :=
  ⟨hbefore.trans h.first_le, h.start_le, h.le_last.trans hbehind⟩

/-- A span that goes up to the second place. -/
theorem Span.Within.upTo {start : Position} (hfirst : first ≤ start) (hstart : start ≤ last) :
    Span.Within first last ⟨start, last⟩ :=
  ⟨hfirst, hstart, le_rfl⟩

/-- Spans between two places, one behind the other. -/
structure Arranged (first last : Position) (spans : List Span) : Prop where
  within : ∀ s ∈ spans, s.Within first last
  apart : spans.Pairwise fun s t => s.stop ≤ t.start

namespace Arranged

theorem nil : Arranged first last [] := ⟨by simp, .nil⟩

theorem singleton {s : Span} (h : s.Within first last) : Arranged first last [s] :=
  ⟨by simpa using h, List.pairwise_singleton _ _⟩

theorem mono {spans : List Span} {before behind : Position} (h : Arranged first last spans) (hbefore : before ≤ first)
    (hbehind : last ≤ behind) : Arranged before behind spans :=
  ⟨fun s hs => (h.within s hs).mono hbefore hbehind, h.apart⟩

theorem append {front back : List Span} (h : Arranged first middle front) (h' : Arranged middle last back)
    (hfirst : first ≤ middle) (hlast : middle ≤ last) : Arranged first last (front ++ back) := by
  refine ⟨List.forall_mem_append.mpr ⟨(h.mono le_rfl hlast).within, (h'.mono hfirst le_rfl).within⟩, ?_⟩
  refine List.pairwise_append.mpr ⟨h.apart, h'.apart, fun s hs t ht => ?_⟩
  exact (h.within s hs).le_last.trans (h'.within t ht).first_le

end Arranged

end Timeline.Text
