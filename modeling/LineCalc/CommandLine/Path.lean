/-!
Paths of scripts, in the one spelling that messages use.
-/

namespace LineCalc.CommandLine.Path

/-- The pieces of a path between its slashes. -/
def pieces : List Char → List (List Char)
  | [] => [[]]
  | c :: rest =>
    if c = '/' then [] :: pieces rest
    else
      match pieces rest with
      | [] => [[c]]
      | piece :: later => (c :: piece) :: later

/-- The start of a path that does not depend on a current directory: one slash, or two if the path
starts with exactly two. -/
def root : List Char → List Char
  | ['/', '/'] => ['/', '/']
  | '/' :: '/' :: c :: _ => if c = '/' then ['/'] else ['/', '/']
  | '/' :: _ => ['/']
  | _ => []

/-- A path without empty pieces and without pieces that stand for the directory they are in. -/
def normalize (path : String) : String :=
  let kept := (pieces path.toList).filter fun piece => !piece.isEmpty && piece != ['.']
  let text := root path.toList ++ ['/'].intercalate kept
  if text.isEmpty then "." else String.ofList text

end LineCalc.CommandLine.Path
