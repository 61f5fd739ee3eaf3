import LineCalc.Event
import LineCalc.Lexeme
import LineCalc.NameTable

/-!
Taking lexemes in: words become names, and a word seen for the first time gets a handle.
-/

namespace LineCalc

/-- A lexeme that has been taken in: its token, the names known after it and what it did. -/
structure Taken where
  token : RawToken
  names : NameTable
  events : List Event
deriving DecidableEq

/-- Takes a lexeme in. Only a word that was not known does something visible. -/
def NameTable.take (names : NameTable) : Lexeme → Taken
  | .number value => ⟨.number value, names, []⟩
  | .symbol symbol => ⟨.symbol symbol, names, []⟩
  | .word text =>
    let interned := names.intern text
    ⟨.name interned.2, interned.1,
      if names.contains text then [] else [.interned text interned.2]⟩

end LineCalc
