import LineCalc.CalcError
import LineCalc.Token

/-!
Reordering a line into postfix order while it is read. Operands pass at once; an operator waits on a
stack until a looser one, the end of its bracket or the end of the line lets it go. A semicolon
never waits. Whether the next token has to start an operand or to continue behind one is all that
decides which tokens are acceptable.
-/

namespace LineCalc

/-- What the next token has to be: the start of an operand, or what may follow one. -/
inductive Expect where
  | value | operator
deriving DecidableEq, Repr

/-- What waits on the stack of a resolver. -/
inductive Waiting where
  | operator (op : Operator)
  | bracket
deriving DecidableEq, Repr

/-- The state between two tokens of a line. Both lists have their latest entry first; the spans of
the operands so far widen the spans of the operators that take them. -/
structure Resolver where
  expect : Expect
  stack : List (Spanned Waiting)
  operands : List Span
deriving DecidableEq

/-- What leaves the stack in one step: the rest of the stack, the operand spans after it, and either
the tokens that left or the fault that stopped the step and lost them. -/
structure Release where
  stack : List (Spanned Waiting)
  operands : List Span
  ready : Except Fault (List (Spanned Token))

namespace Release

def hold (stack : List (Spanned Waiting)) (operands : List Span) : Release :=
  ⟨stack, operands, .ok []⟩

def fail (stack : List (Spanned Waiting)) (operands : List Span) (fault : Fault) : Release :=
  ⟨stack, operands, .error fault⟩

def cons (token : Spanned Token) (release : Release) : Release :=
  { release with ready := release.ready.map (token :: ·) }

end Release

namespace PrecedenceTable

/-- Whether a waiting operator has to leave before an incoming one is taken in. -/
def mustPrecede (table : PrecedenceTable) (waiting incoming : Operator) : Except Fault Bool :=
  match table waiting, table incoming with
  | some first, some second => .ok (first.appliesBefore second)
  | none, _ => .error (.missingRule waiting)
  | some _, none => .error (.missingRule incoming)

/-- The token of an operator, whose span takes in the spans of its operands, and the operand spans
after it. An operator with too few operands takes those that are there. -/
def emit (table : PrecedenceTable) (op : Operator) (span : Span) (operands : List Span) :
    Except Fault (Spanned Token × List Span) :=
  match table op with
  | none => .error (.missingRule op)
  | some rule =>
    let count := rule.arity.toNat
    let whole := (operands.take count).foldl Span.hull span
    .ok (⟨.operator op, whole⟩, whole :: operands.drop count)

/-- Lets all operators go that have to leave before `incoming`, down to the innermost bracket. -/
def releaseFor (table : PrecedenceTable) (incoming : Operator) :
    List (Spanned Waiting) → List Span → Release
  | [], operands => .hold [] operands
  | ⟨.bracket, span⟩ :: below, operands => .hold (⟨.bracket, span⟩ :: below) operands
  | ⟨.operator op, span⟩ :: below, operands =>
    match table.mustPrecede op incoming with
    | .error fault => .fail (⟨.operator op, span⟩ :: below) operands fault
    | .ok false => .hold (⟨.operator op, span⟩ :: below) operands
    | .ok true =>
      match table.emit op span operands with
      | .error fault => .fail below operands fault
      | .ok (token, operands) => (table.releaseFor incoming below operands).cons token

/-- Lets all operators go down to the innermost bracket and takes the bracket away. The operand in
the brackets then covers both of them. -/
def releaseBracket (table : PrecedenceTable) (closing : Span) :
    List (Spanned Waiting) → List Span → Release
  | [], operands => .fail [] operands (.inLine .unclosedRightBracket closing)
  | ⟨.bracket, opening⟩ :: below, operands =>
    match operands with
    | [] => .hold below []
    | group :: others => .hold below ((group.hull opening).hull closing :: others)
  | ⟨.operator op, span⟩ :: below, operands =>
    match table.emit op span operands with
    | .error fault => .fail below operands fault
    | .ok (token, operands) => (table.releaseBracket closing below operands).cons token

/-- Lets everything go; a bracket that is left over is a mistake. -/
def releaseAll (table : PrecedenceTable) : List (Spanned Waiting) → List Span → Release
  | [], operands => .hold [] operands
  | ⟨.bracket, opening⟩ :: below, operands =>
    .fail below operands (.inLine .unclosedLeftBracket opening)
  | ⟨.operator op, span⟩ :: below, operands =>
    match table.emit op span operands with
    | .error fault => .fail below operands fault
    | .ok (token, operands) => (table.releaseAll below operands).cons token

end PrecedenceTable

namespace Resolver

def start : Resolver :=
  ⟨.value, [], []⟩

def after (resolver : Resolver) (release : Release) :
    Resolver × Except Fault (List (Spanned Token)) :=
  ({ resolver with stack := release.stack, operands := release.operands }, release.ready)

def pushOperand (resolver : Resolver) (token : Spanned Token) :
    Resolver × Except Fault (List (Spanned Token)) :=
  ({ resolver with expect := .operator, operands := token.span :: resolver.operands },
    .ok [token])

/-- Takes an operator in behind those that have to leave first. -/
def pushOperator (table : PrecedenceTable) (resolver : Resolver) (op : Operator) (span : Span) :
    Resolver × Except Fault (List (Spanned Token)) :=
  let release := table.releaseFor op resolver.stack resolver.operands
  match release.ready with
  | .error _ => resolver.after release
  | .ok tokens =>
    if op = .semicolon then
      match table.emit op span release.operands with
      | .error fault => resolver.after { release with ready := .error fault }
      | .ok (token, operands) =>
        resolver.after { release with operands := operands, ready := .ok (tokens ++ [token]) }
    else
      resolver.after { release with stack := ⟨.operator op, span⟩ :: release.stack }

def refuse (resolver : Resolver) (cause : Cause) (span : Span) :
    Resolver × Except Fault (List (Spanned Token)) :=
  (resolver, .error (.inLine cause span))

/-- Takes one token in and gives the tokens that are ready because of it. -/
def push (table : PrecedenceTable) (resolver : Resolver) (token : Spanned RawToken) :
    Resolver × Except Fault (List (Spanned Token)) :=
  let span := token.span
  match resolver.expect, token.value with
  | .value, .number value => resolver.pushOperand ⟨.number value, span⟩
  | .value, .name handle => resolver.pushOperand ⟨.name handle, span⟩
  | .value, .symbol .leftParen =>
    ({ resolver with stack := ⟨.bracket, span⟩ :: resolver.stack }, .ok [])
  | .value, .symbol (.operator .print) => resolver.pushOperator table .print span
  | .value, .symbol (.operator .semicolon) => resolver.pushOperator table .semicolon span
  | .value, .symbol symbol => resolver.refuse (.expectedExpression symbol) span
  | .operator, .symbol (.operator op) =>
    let expect := if op.opensOperand then .value else resolver.expect
    pushOperator table { resolver with expect := expect } op span
  | .operator, .symbol .rightParen =>
    resolver.after (table.releaseBracket span resolver.stack resolver.operands)
  | .operator, .symbol .leftParen => resolver.refuse (.expectedOperator .bracket) span
  | .operator, .number _ => resolver.refuse (.expectedOperator .number) span
  | .operator, .name _ => resolver.refuse (.expectedOperator .name) span

/-- Gives the tokens that are ready because the line has ended. -/
def finish (table : PrecedenceTable) (resolver : Resolver) :
    Resolver × Except Fault (List (Spanned Token)) :=
  resolver.after (table.releaseAll resolver.stack resolver.operands)

/-- Takes tokens in one by one, up to the first fault. -/
def pushAll (table : PrecedenceTable) :
    List (Spanned RawToken) → Resolver → Resolver × Except Fault (List (Spanned Token))
  | [], resolver => (resolver, .ok [])
  | token :: later, resolver =>
    let pushed := resolver.push table token
    match pushed.2 with
    | .error fault => (pushed.1, .error fault)
    | .ok ready =>
      let rest := pushAll table later pushed.1
      (rest.1, rest.2.map (ready ++ ·))

end Resolver

/-- The postfix order of the tokens of a whole line. -/
def PrecedenceTable.reorder (table : PrecedenceTable) (tokens : List (Spanned RawToken)) :
    Except Fault (List (Spanned Token)) :=
  let pushed := Resolver.pushAll table tokens .start
  match pushed.2 with
  | .error fault => .error fault
  | .ok ready => (pushed.1.finish table).2.map (ready ++ ·)

end LineCalc
