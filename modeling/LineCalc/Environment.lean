import LineCalc.Token

/-!
Environments: the values of variables, in order of first assignment.
-/

namespace LineCalc

/-- Variables and their values; the first assignment of a variable gives it its place. -/
structure Environment where
  bindings : List (Handle × Number)
deriving DecidableEq

namespace Environment

def empty : Environment :=
  ⟨[]⟩

/-- The value of the first binding of a variable. -/
def valueIn (handle : Handle) : List (Handle × Number) → Option Number
  | [] => none
  | binding :: later => if binding.1 = handle then some binding.2 else valueIn handle later

def get? (environment : Environment) (handle : Handle) : Option Number :=
  valueIn handle environment.bindings

/-- Overwrites the value of the first binding of a variable, or adds one at the end. -/
def assignIn (handle : Handle) (value : Number) : List (Handle × Number) → List (Handle × Number)
  | [] => [(handle, value)]
  | binding :: later =>
    if binding.1 = handle then (handle, value) :: later
    else binding :: assignIn handle value later

/-- Gives a variable a value; a variable that has one already keeps its place. -/
def assign (environment : Environment) (handle : Handle) (value : Number) : Environment :=
  ⟨assignIn handle value environment.bindings⟩

def ofList (assignments : List (Handle × Number)) : Environment :=
  assignments.foldl (fun environment binding => environment.assign binding.1 binding.2) empty

private theorem valueIn_assignIn (handle other : Handle) (value : Number)
    (bindings : List (Handle × Number)) :
    valueIn other (assignIn handle value bindings) =
      if other = handle then some value else valueIn other bindings := by
  induction bindings with
  | nil => simp [assignIn, valueIn, eq_comm]
  | cons binding later ih =>
    by_cases held : binding.1 = handle
    · by_cases same : other = handle
      · simp [assignIn, valueIn, held, same]
      · simp [assignIn, valueIn, held, same, Ne.symm same]
    · by_cases same : other = handle
      · simp_all [assignIn, valueIn]
      · simp [assignIn, valueIn, held, ih, same]

theorem get?_assign (environment : Environment) (handle other : Handle) (value : Number) :
    (environment.assign handle value).get? other =
      if other = handle then some value else environment.get? other :=
  valueIn_assignIn handle other value environment.bindings

theorem handles_assign (environment : Environment) (handle : Handle) (value : Number) :
    (environment.assign handle value).bindings.map Prod.fst =
      if handle ∈ environment.bindings.map Prod.fst then environment.bindings.map Prod.fst
      else environment.bindings.map Prod.fst ++ [handle] := by
  unfold assign
  generalize environment.bindings = bindings
  induction bindings with
  | nil => simp [assignIn]
  | cons binding later ih =>
    by_cases held : binding.1 = handle
    · simp [assignIn, held]
    · simp only [assignIn, held, if_false, List.map_cons, ih, List.mem_cons, Ne.symm held, false_or]
      split <;> simp

end Environment

end LineCalc
