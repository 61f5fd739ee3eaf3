import LineCalc.Intake
import LineCalc.Resolver

/-!
Listings of a line: its tokens as they are read and its tokens in postfix order, without executing
them. Each token comes with the names known when it came out, which shows how far into the line that
was.
-/

namespace LineCalc

/-- Tokens of a line up to its end or up to a fault, and the names known at the end. -/
structure Listing (α : Type) where
  items : List (Spanned α × NameTable)
  names : NameTable
  fault : Option Fault

namespace Listing

def ended {α : Type} (names : NameTable) (fault : Option Fault) : Listing α :=
  ⟨[], names, fault⟩

def following {α : Type} (tokens : List (Spanned α)) (known : NameTable) (listing : Listing α) :
    Listing α :=
  { listing with items := tokens.map (·, known) ++ listing.items }

/-- Takes lexemes in one by one. -/
def takeAll (mistake : Option CalcError) (names : NameTable) :
    List (Spanned Lexeme) → Listing RawToken
  | [] => ended names (mistake.map Fault.line)
  | lexeme :: later =>
    let taken := names.take lexeme.value
    (takeAll mistake taken.names later).following [⟨taken.token, lexeme.span⟩] taken.names

def read (names : NameTable) (line : String) : Listing RawToken :=
  let scan := Scan.ofLine line
  takeAll scan.mistake names scan.lexemes

/-- The tokens that a resolver gives, or the fault that lost them. -/
def ofReady (names : NameTable) : Except Fault (List (Spanned Token)) → Listing Token
  | .error fault => ended names (some fault)
  | .ok tokens => (ended names none).following tokens names

/-- Reorders tokens one by one. Where they ended with a fault the line is not finished. -/
def reorderAll (names : NameTable) (fault : Option Fault) (resolver : Resolver) :
    List (Spanned RawToken × NameTable) → Listing Token
  | [] =>
    match fault with
    | some fault => ended names (some fault)
    | none => ofReady names (resolver.finish PrecedenceTable.standard).2
  | (token, known) :: later =>
    let pushed := resolver.push PrecedenceTable.standard token
    match pushed.2 with
    | .error fault => ended known (some fault)
    | .ok ready => (reorderAll names fault pushed.1 later).following ready known

def reorder (listing : Listing RawToken) : Listing Token :=
  reorderAll listing.names listing.fault .start listing.items

end Listing

end LineCalc
