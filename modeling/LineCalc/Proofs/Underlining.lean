import LineCalc.Proofs.Location

/-!
How a mistake is shown in its line. The excerpt holds the line from the window in front of the span to the
window behind it, with dots for what is left out on either side, and the tildes stand right under the
characters of the span. Every mistake that stops a line has such a span.
-/

namespace LineCalc

/-- The span is not empty and lies in the line without its end. -/
structure Span.InLine (line : String) (span : Span) : Prop where
  starts : 0 ≤ span.start
  inhabited : span.start < span.stop
  stops : span.stop ≤ (Text.withoutLineEnd line.toList).length

theorem Scan.Covers.inLine {line : String} {span : Span} (covers : (Scan.ofLine line).Covers span) :
    span.InLine line := by
  obtain ⟨order, ⟨first, firstPlace, start⟩, last, lastPlace, stop⟩ := covers
  obtain ⟨positive, -⟩ := (ofChars_places 0 _ first firstPlace).first_visible
  obtain ⟨c, found, visible⟩ := (ofChars_places 0 _ last lastPlace).last_visible
  have bound := Text.lt_length_withoutLineEnd found visible
  exact ⟨by omega, order, by omega⟩

namespace Excerpt

/-- What stands for a part of a line that is left out: nothing if the part is empty. -/
def dots (part : List Char) : List Char :=
  if part = [] then [] else ellipsis

/-- The excerpt shows a span of a line and marks it. -/
structure Underlines (excerpt : Excerpt) (line : String) (span : Span) (window : Int) : Prop where
  /-- The line without its end is cut at the windows around the span, with dots for what is left out. -/
  shown : ∃ before middle after, Text.withoutLineEnd line.toList = before ++ middle ++ after ∧
    before.length = max 0 (span.start - window) ∧
    (before ++ middle).length =
      min ((Text.withoutLineEnd line.toList).length : Int) (span.stop + window) ∧
    excerpt.shown = dots before ++ middle ++ dots after
  /-- There is one tilde for each character of the span. -/
  tildes : excerpt.underline = span.stop - span.start
  /-- The characters over the tildes are those of the span. -/
  marked : slice excerpt.indent (excerpt.indent + excerpt.underline : Nat) excerpt.shown =
    slice span.start.toNat span.stop line.toList

variable {line before left piece right after : List Char} {span : Span} {window : Int}

theorem dots_before (part : List Char) :
    (if 0 < part.length then ellipsis else []) = dots part := by
  cases part <;> simp [dots]

theorem dots_after (front part : List Char) :
    (if (front.length : Int) < (front ++ part).length then ellipsis else []) = dots part := by
  cases part with
  | nil => simp [dots]
  | cons c rest =>
    rw [if_pos, dots, if_neg (List.cons_ne_nil c rest)]
    rw [List.length_append, List.length_cons]
    omega

theorem exists_parts {start stop : Nat} (order : start < stop) (inside : stop ≤ line.length)
    (wide : 0 ≤ window) : ∃ before left piece right after : List Char,
      line = before ++ (left ++ piece ++ right) ++ after ∧
      (before.length : Int) = max 0 (start - window) ∧ (before ++ left).length = start ∧
      (before ++ left ++ piece).length = stop ∧
      ((before ++ (left ++ piece ++ right)).length : Int) = min (line.length : Int) (stop + window) := by
  have cut {row : List Char} {n : Nat} (short : n ≤ row.length) :
      ∃ front back, row = front ++ back ∧ front.length = n :=
    ⟨row.take n, row.drop n, (List.take_append_drop n row).symm, List.length_take_of_le short⟩
  -- Cut from the right, so that each cut leaves the earlier ones as they are.
  obtain ⟨upToLast, after, rfl, last⟩ :=
    cut (show (min (line.length : Int) (stop + window)).toNat ≤ line.length by omega)
  obtain ⟨upToStop, right, rfl, stopped⟩ := cut (show stop ≤ upToLast.length by omega)
  obtain ⟨upToStart, piece, rfl, started⟩ := cut (show start ≤ upToStop.length by omega)
  obtain ⟨before, left, rfl, first⟩ :=
    cut (show (max 0 (start - window)).toNat ≤ upToStart.length by omega)
  refine ⟨before, left, piece, right, after, by simp, by omega, started, stopped, ?_⟩
  rw [← List.append_assoc, ← List.append_assoc, last]
  omega

/-- What is shown of a line that a span and the window around it cut in five. -/
theorem around_parts (parts : Text.withoutLineEnd line = before ++ (left ++ piece ++ right) ++ after)
    (inhabited : 0 < piece.length) (first : (span.start - window).toNat = before.length)
    (start : span.start = (before ++ left).length) (stop : span.stop = (before ++ left ++ piece).length)
    (last : min ((Text.withoutLineEnd line).length : Int) (span.stop + window) =
      (before ++ (left ++ piece ++ right)).length) :
    around line span window = ⟨dots before ++ (left ++ piece ++ right) ++ dots after,
      (dots before ++ left).length, piece.length⟩ := by
  have wide : max span.stop (span.start + 1) = span.stop := by
    simp only [List.length_append] at start stop
    omega
  rw [parts] at last
  simp only [around, parts, first, wide, last, slice_middle, dots_before, dots_after, mk.injEq,
    true_and]
  simp only [List.length_append] at start stop ⊢
  omega

/-- An excerpt around a span in the line marks the span. -/
theorem around_underlines {line : String} (wide : 0 ≤ window) (inLine : span.InLine line) :
    (around line.toList span window).Underlines line span window := by
  obtain ⟨ending, whole, -⟩ := Text.exists_lineEnd line.toList
  obtain ⟨start, stop, rfl⟩ : ∃ start stop : Nat, span = ⟨start, stop⟩ := by
    have positive := Int.le_trans inLine.starts (Int.le_of_lt inLine.inhabited)
    exact ⟨_, _, congrArg₂ Span.mk (Int.toNat_of_nonneg inLine.starts).symm
      (Int.toNat_of_nonneg positive).symm⟩
  have order : start < stop := Int.ofNat_lt.mp inLine.inhabited
  have inside : stop ≤ _ := Int.ofNat_le.mp inLine.stops
  obtain ⟨before, left, piece, right, after, parts, first, rfl, rfl, last⟩ :=
    exists_parts order inside wide
  have inhabited : 0 < piece.length := by
    rw [@List.length_append _ (before ++ left)] at order
    omega
  have cut : (((before ++ left).length : Int) - window).toNat = before.length := by omega
  have shape : around line.toList ⟨(before ++ left).length, (before ++ left ++ piece).length⟩ window =
      _ := around_parts parts inhabited cut rfl rfl last.symm
  rw [shape]
  constructor
  case shown => exact ⟨before, _, after, parts, first, last, rfl⟩
  case tildes =>
    simp only [List.length_append]
    omega
  case marked =>
    have here := slice_middle (dots before ++ left) piece (right ++ dots after)
    have meant := slice_middle (before ++ left) piece (right ++ after ++ ending)
    rw [whole, parts, Int.toNat_natCast, ← List.length_append]
    simp only [List.append_assoc] at here meant ⊢
    exact here.trans meant.symm

end Excerpt

/-- A mistake is shown in three lines: an excerpt, tildes behind an indent, and the caption behind the same
indent and a caret. There is always a tilde. If the span is not empty and lies in the line without its end,
the excerpt holds the line from the window in front of the span to the window behind it, dots stand where
characters of the line were left out and nowhere else, and the tildes stand under the span's own characters.
Every mistake that stops a line is such a one. -/
theorem renderIn_underlines (line : String) (span : Span) (caption : String) (window : Int) :
    (∃ excerpt : Excerpt, Excerpt.renderIn line span caption window = String.ofList
        (excerpt.shown ++ '\n' :: List.replicate excerpt.indent ' ' ++
          List.replicate excerpt.underline '~' ++ '\n' :: List.replicate excerpt.indent ' ' ++
          '^' :: ' ' :: caption.toList) ∧
      0 < excerpt.underline ∧
      (0 ≤ window → span.InLine line → excerpt.Underlines line span window)) ∧
    ∀ (session : Session) fault, (session.run line).fault = some fault →
      ∃ error : CalcError, fault = .line error ∧ error.span.InLine line := by
  refine ⟨⟨Excerpt.around line.toList span window, rfl, ?_, Excerpt.around_underlines⟩, ?_⟩
  · simp only [Excerpt.around]
    omega
  · intro session fault stopped
    obtain ⟨cause, span, rfl, covers⟩ := (LineRun.feedAll_points session line).fault stopped
    exact ⟨⟨cause, span⟩, rfl, covers.inLine⟩

/-- In `1+2*abc;5` and a line feed, a window of one shows the name without a value between two signs. -/
theorem renderIn_underlines_unassigned :
    (Session.empty.run "1+2*abc;5\n").fault = some (.inLine (.unassignedVariable "abc") ⟨4, 7⟩) ∧
      Span.InLine "1+2*abc;5\n" ⟨4, 7⟩ ∧
      Excerpt.renderIn "1+2*abc;5\n" ⟨4, 7⟩ "no value" 1 = "...*abc;...\n    ~~~\n    ^ no value" ∧
      ∃ excerpt : Excerpt, excerpt.Underlines "1+2*abc;5\n" ⟨4, 7⟩ 1 := by
  have stopped : (Session.empty.run "1+2*abc;5\n").fault =
      some (.inLine (.unassignedVariable "abc") ⟨4, 7⟩) := by decide +kernel
  obtain ⟨⟨excerpt, -, -, marks⟩, located⟩ :=
    renderIn_underlines "1+2*abc;5\n" ⟨4, 7⟩ "no value" 1
  obtain ⟨error, same, inLine⟩ := located Session.empty _ stopped
  cases same
  exact ⟨stopped, inLine, by decide +kernel, excerpt, marks (by decide) inLine⟩

end LineCalc
