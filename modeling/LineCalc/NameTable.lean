import LineCalc.Token

/-!
Name tables: spellings and the handles they were given, in order of first appearance.
-/

namespace LineCalc

/-- The spellings known so far; a spelling's handle is its position. -/
structure NameTable where
  spellings : List String
deriving DecidableEq, Repr

namespace NameTable

def empty : NameTable :=
  ⟨[]⟩

/-- How many names are known, and so the next handle. -/
def size (table : NameTable) : Nat :=
  table.spellings.length

def handle? (table : NameTable) (spelling : String) : Option Handle :=
  (table.spellings.idxOf? spelling).map Int.ofNat

def contains (table : NameTable) (spelling : String) : Bool :=
  (table.handle? spelling).isSome

/-- The spelling of a handle; a negative handle counts back from the latest spelling. -/
def spelling? (table : NameTable) : Handle → Option String
  | .ofNat position => table.spellings[position]?
  | .negSucc back => table.spellings.reverse[back]?

/-- Adds a spelling unless it is known, and gives its handle. -/
def intern (table : NameTable) (spelling : String) : NameTable × Handle :=
  match table.handle? spelling with
  | some handle => (table, handle)
  | none => (⟨table.spellings ++ [spelling]⟩, table.size)

/-- The table after the spellings of a list; a repeated one keeps its first handle. -/
def ofList (spellings : List String) : NameTable :=
  spellings.foldl (fun table spelling => (table.intern spelling).1) empty

theorem intern_known {table : NameTable} {spelling : String} {handle : Handle}
    (known : table.handle? spelling = some handle) : table.intern spelling = (table, handle) := by
  simp [intern, known]

theorem intern_new {table : NameTable} {spelling : String}
    (new : table.handle? spelling = none) :
    table.intern spelling = (NameTable.mk (table.spellings ++ [spelling]), (table.size : Handle)) := by
  simp [intern, new]

theorem spellings_prefix_intern (table : NameTable) (spelling : String) :
    table.spellings <+: (table.intern spelling).1.spellings := by
  unfold intern
  split
  · exact List.prefix_rfl
  · exact List.prefix_append _ _

/-- The handle of an interned spelling leads back to it. -/
theorem spelling?_intern (table : NameTable) (spelling : String) :
    (table.intern spelling).1.spelling? (table.intern spelling).2 = some spelling := by
  unfold intern
  split
  · next handle known =>
    obtain ⟨position, found, rfl⟩ := Option.map_eq_some_iff.mp known
    simp only [List.idxOf?, List.findIdx?_eq_some_iff_getElem] at found
    obtain ⟨inside, same, -⟩ := found
    simp only [beq_iff_eq] at same
    simp [spelling?, inside, same]
  · show (table.spellings ++ [spelling])[table.spellings.length]? = some spelling
    simp

end NameTable

end LineCalc
