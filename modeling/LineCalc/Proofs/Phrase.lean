import LineCalc.Operator

/-!
Expressions as they are written, with the brackets that are written, and lines of them. What is read
off such a tree is its written form and its postfix order, in which each operator follows its
operands and brackets do not occur.
-/

namespace LineCalc

/-- The operators that stand between two operands. -/
inductive Dyadic where
  | equals
  | arithmetic (op : Arithmetic)
deriving DecidableEq, Repr

def Dyadic.operator : Dyadic → Operator
  | equals => .equals
  | arithmetic op => .arithmetic op

mutual

/-- An expression as it is written, over operands of any kind. -/
inductive Phrase (α : Type) where
  | operand (value : α)
  | binary (op : Dyadic) (left right : Phrase α)
  | printBefore (operand : Phrase α)
  | printAfter (operand : Phrase α)
  | brackets (inside : Series α)

/-- What is written between brackets: statements, with a semicolon behind each, and an expression. -/
inductive Series (α : Type) where
  | last (phrase : Phrase α)
  | empty (later : Series α)
  | statement (phrase : Phrase α) (later : Series α)

end

/-- A written statement, which may be empty. -/
abbrev Statement (α : Type) := Option (Phrase α)

/-- A written line: statements with a semicolon behind each, and a last one without. -/
structure Passage (α : Type) where
  ended : List (Statement α)
  last : Statement α

variable {α β γ : Type}

section Written

variable (operand : α → β) (symbol : Symbol → β)

mutual

/-- The written form of an expression, from those of its operands and of symbols. -/
def Phrase.written : Phrase α → List β
  | .operand value => [operand value]
  | .binary op left right => left.written ++ symbol (.operator op.operator) :: right.written
  | .printBefore phrase => symbol (.operator .print) :: phrase.written
  | .printAfter phrase => phrase.written ++ [symbol (.operator .print)]
  | .brackets inside => symbol .leftParen :: (inside.written ++ [symbol .rightParen])

/-- The written form of what stands between brackets. -/
def Series.written : Series α → List β
  | .last phrase => phrase.written
  | .empty later => symbol (.operator .semicolon) :: later.written
  | .statement phrase later =>
    phrase.written ++ symbol (.operator .semicolon) :: later.written

end

def Statement.written (statement : Statement α) : List β :=
  statement.elim [] (Phrase.written operand symbol)

def Passage.written (passage : Passage α) : List β :=
  (passage.ended.flatMap fun statement =>
    statement.written operand symbol ++ [symbol (.operator .semicolon)]) ++
  passage.last.written operand symbol

mutual

theorem Phrase.map_written (f : β → γ) : ∀ phrase : Phrase α,
    (phrase.written operand symbol).map f =
      phrase.written (fun value => f (operand value)) (fun sign => f (symbol sign))
  | .operand _ => rfl
  | .binary _ left right => by
    simp [Phrase.written, left.map_written f, right.map_written f]
  | .printBefore phrase => by simp [Phrase.written, phrase.map_written f]
  | .printAfter phrase => by simp [Phrase.written, phrase.map_written f]
  | .brackets inside => by simp [Phrase.written, inside.map_written f]

theorem Series.map_written (f : β → γ) : ∀ series : Series α,
    (series.written operand symbol).map f =
      series.written (fun value => f (operand value)) (fun sign => f (symbol sign))
  | .last phrase => by simp [Series.written, phrase.map_written f]
  | .empty later => by simp [Series.written, later.map_written f]
  | .statement phrase later => by simp [Series.written, phrase.map_written f, later.map_written f]

end

theorem Statement.map_written (f : β → γ) (statement : Statement α) :
    (statement.written operand symbol).map f =
      statement.written (fun value => f (operand value)) (fun sign => f (symbol sign)) := by
  cases statement with
  | none => rfl
  | some phrase => exact phrase.map_written operand symbol f

theorem Passage.map_written (f : β → γ) (passage : Passage α) :
    (passage.written operand symbol).map f =
      passage.written (fun value => f (operand value)) (fun sign => f (symbol sign)) := by
  simp [written, List.map_flatMap, Statement.map_written]

end Written

section Postorder

variable (operand : α → β) (operator : Operator → β)

mutual

/-- The postfix order of an expression: its operands, in their order, before the operator. -/
def Phrase.postorder : Phrase α → List β
  | .operand value => [operand value]
  | .binary op left right => left.postorder ++ right.postorder ++ [operator op.operator]
  | .printBefore phrase | .printAfter phrase => phrase.postorder ++ [operator .print]
  | .brackets inside => inside.postorder

/-- The postfix order of what stands between brackets, each semicolon behind its statement. -/
def Series.postorder : Series α → List β
  | .last phrase => phrase.postorder
  | .empty later => operator .semicolon :: later.postorder
  | .statement phrase later => phrase.postorder ++ operator .semicolon :: later.postorder

end

def Statement.postorder (statement : Statement α) : List β :=
  statement.elim [] (Phrase.postorder operand operator)

/-- The postfix order of a line, each semicolon behind its statement. -/
def Passage.postorder (passage : Passage α) : List β :=
  (passage.ended.flatMap fun statement =>
    statement.postorder operand operator ++ [operator .semicolon]) ++
  passage.last.postorder operand operator

end Postorder

/-- Next to an operator with the rule `outer`, an operation with the rule `inner` may be its left
operand without brackets: it binds tighter, or as tight where operators group to the left. -/
def Rule.mayStandLeft (inner outer : Rule) : Bool :=
  decide (outer.precedence < inner.precedence) ||
    decide (outer.precedence = inner.precedence ∧ outer.associativity = .left)

/-- An operation with the rule `inner` may be the right operand without brackets: it binds tighter,
or as tight where operators group to the right. -/
def Rule.mayStandRight (inner outer : Rule) : Bool :=
  decide (outer.precedence < inner.precedence) ||
    decide (outer.precedence = inner.precedence ∧ outer.associativity = .right)

/-- The operator between the two operands of an expression without brackets around it. -/
def Phrase.root? : Phrase α → Option Dyadic
  | .binary op _ _ => some op
  | _ => none

section Bracketed

variable (rules : Operator → Rule)

mutual

/-- Brackets stand at least where the rules of operators need them. Printing binds tighter than all
that stands between operands, so its operand needs them around every such operation. -/
def Phrase.bracketed : Phrase α → Bool
  | .operand _ => true
  | .binary op left right =>
    left.root?.all (fun inner => (rules inner.operator).mayStandLeft (rules op.operator)) &&
    right.root?.all (fun inner => (rules inner.operator).mayStandRight (rules op.operator)) &&
    left.bracketed && right.bracketed
  | .printBefore phrase | .printAfter phrase => phrase.root?.isNone && phrase.bracketed
  | .brackets inside => inside.bracketed

/-- Brackets stand at least where they are needed between brackets. -/
def Series.bracketed : Series α → Bool
  | .last phrase => phrase.bracketed
  | .empty later => later.bracketed
  | .statement phrase later => phrase.bracketed && later.bracketed

end

/-- Brackets stand at least where they are needed in every statement. -/
def Passage.bracketed (passage : Passage α) : Bool :=
  passage.ended.all (·.all (Phrase.bracketed rules)) && passage.last.all (Phrase.bracketed rules)

end Bracketed

end LineCalc
