/-!
Sets of characters, given as closed ranges of code points in ascending order. Looking a code point
up stops at the first range that lies above it.
-/

namespace LineCalc.Text

/-- Closed ranges of code points, each above the one before. -/
abbrev CodeRanges := List (Nat × Nat)

/-- Looks a code point up; a range above it ends the search. -/
def CodeRanges.contains : CodeRanges → Nat → Bool
  | [], _ => false
  | (first, last) :: later, code =>
    decide (first ≤ code) && (decide (code ≤ last) || CodeRanges.contains later code)

/-- Every range is in order and lies above all code points below `floor`. -/
def CodeRanges.ascendingFrom : Nat → CodeRanges → Bool
  | _, [] => true
  | floor, (first, last) :: later =>
    decide (floor ≤ first) && decide (first ≤ last) && CodeRanges.ascendingFrom (last + 1) later

theorem CodeRanges.floor_le_of_contains {floor code : Nat} {ranges : CodeRanges}
    (ascending : ranges.ascendingFrom floor = true) (found : ranges.contains code = true) :
    floor ≤ code := by
  cases ranges with
  | nil => simp [CodeRanges.contains] at found
  | cons range later =>
    simp [CodeRanges.contains] at found
    simp [CodeRanges.ascendingFrom] at ascending
    omega

/-- In ascending ranges the search finds exactly the code points that lie in some range. -/
theorem CodeRanges.contains_iff {floor code : Nat} {ranges : CodeRanges}
    (ascending : ranges.ascendingFrom floor = true) :
    ranges.contains code = true ↔ ∃ range ∈ ranges, range.1 ≤ code ∧ code ≤ range.2 := by
  induction ranges generalizing floor with
  | nil => simp [CodeRanges.contains]
  | cons range later ih =>
    simp only [CodeRanges.ascendingFrom, Bool.and_eq_true, decide_eq_true_eq] at ascending
    have rest := ih ascending.2
    simp only [CodeRanges.contains, Bool.and_eq_true, Bool.or_eq_true, decide_eq_true_eq,
      List.mem_cons, exists_eq_or_imp, ← rest]
    constructor
    · rintro ⟨low, high | found⟩
      · exact Or.inl ⟨low, high⟩
      · exact Or.inr found
    · rintro (⟨low, high⟩ | found)
      · exact ⟨low, Or.inl high⟩
      · have above := CodeRanges.floor_le_of_contains ascending.2 found
        exact ⟨by omega, Or.inr found⟩

end LineCalc.Text
