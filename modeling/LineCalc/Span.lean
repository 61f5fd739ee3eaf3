/-!
Places in a line, counted in characters, and values that carry one. The bounds are integers, so that
a range may reach out of its line on both sides.
-/

namespace LineCalc

/-- The half-open range from `start` to `stop`. -/
structure Span where
  start : Int
  stop : Int
deriving DecidableEq, Repr

namespace Span

/-- The smallest range that holds both. -/
def hull (a b : Span) : Span :=
  ⟨min a.start b.start, max a.stop b.stop⟩

theorem hull_comm (a b : Span) : a.hull b = b.hull a := by
  simp [hull, Int.min_comm, Int.max_comm]

theorem hull_assoc (a b c : Span) : (a.hull b).hull c = a.hull (b.hull c) := by
  simp [hull, Int.min_assoc, Int.max_assoc]

def Within (inner outer : Span) : Prop :=
  outer.start ≤ inner.start ∧ inner.stop ≤ outer.stop

theorem Within.refl (a : Span) : a.Within a :=
  ⟨Int.le_refl _, Int.le_refl _⟩

theorem Within.trans {a b c : Span} (inner : a.Within b) (outer : b.Within c) : a.Within c :=
  ⟨Int.le_trans outer.1 inner.1, Int.le_trans inner.2 outer.2⟩

theorem within_hull_left (a b : Span) : a.Within (a.hull b) :=
  ⟨Int.min_le_left _ _, Int.le_max_left _ _⟩

theorem within_hull_right (a b : Span) : b.Within (a.hull b) :=
  ⟨Int.min_le_right _ _, Int.le_max_right _ _⟩

theorem hull_within {a b c : Span} (first : a.Within c) (second : b.Within c) :
    (a.hull b).Within c :=
  ⟨Int.le_min.mpr ⟨first.1, second.1⟩, Int.max_le.mpr ⟨first.2, second.2⟩⟩

def text (span : Span) : String :=
  "[" ++ toString span.start ++ "," ++ toString span.stop ++ ")"

end Span

/-- A value and the place it comes from. -/
structure Spanned (α : Type) where
  value : α
  span : Span
deriving DecidableEq, Repr

def Spanned.map {α β : Type} (f : α → β) (item : Spanned α) : Spanned β :=
  ⟨f item.value, item.span⟩

theorem Spanned.exists_of_values_cons {α : Type} {items : List (Spanned α)} {value : α}
    {rest : List α} (values : items.map Spanned.value = value :: rest) :
    ∃ span later, items = ⟨value, span⟩ :: later ∧ later.map Spanned.value = rest := by
  obtain ⟨⟨_, span⟩, later, rfl, rfl, same⟩ := List.map_eq_cons_iff.mp values
  exact ⟨span, later, rfl, same⟩

theorem Spanned.exists_of_values_singleton {α : Type} {items : List (Spanned α)} {value : α}
    (values : items.map Spanned.value = [value]) : ∃ span, items = [⟨value, span⟩] := by
  obtain ⟨span, later, rfl, none⟩ := exists_of_values_cons values
  exact ⟨span, by rw [List.map_eq_nil_iff.mp none]⟩

end LineCalc
