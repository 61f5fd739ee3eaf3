import LineCalc.Proofs.Agreement
import LineCalc.Proofs.Stopping
import Mathlib.Data.List.TakeWhile

/-!
What operators find on the stack of a machine. The entries on top, down to the first null, are all that
they can take: each takes some of them and leaves one, and nothing that lies below the null is ever
touched.
-/

namespace LineCalc

open PrecedenceTable (standard standard_total)

/-- How many entries lie on top of the first null. -/
def supply (stack : List (Spanned Entry)) : Nat :=
  (stack.takeWhile (·.value.present)).length

/-- The first null and what lies below it. -/
def sunken (stack : List (Spanned Entry)) : List (Spanned Entry) :=
  stack.dropWhile (·.value.present)

section Stack

variable {stack : List (Spanned Entry)} {entry : Spanned Entry}

@[simp] theorem supply_null (place : Span) : supply (⟨.null, place⟩ :: stack) = 0 := rfl

@[simp] theorem sunken_null (place : Span) :
    sunken (⟨.null, place⟩ :: stack) = ⟨.null, place⟩ :: stack := rfl

theorem supply_cons (present : entry.value.present = true) :
    supply (entry :: stack) = supply stack + 1 := by
  simp [supply, present]

theorem sunken_cons (present : entry.value.present = true) :
    sunken (entry :: stack) = sunken stack := by
  simp [sunken, present]

theorem supply_add_sunken (stack : List (Spanned Entry)) :
    supply stack + (sunken stack).length = stack.length := by
  rw [supply, sunken, ← List.length_append, List.takeWhile_append_dropWhile]

theorem present_of_mem_take {count : Nat} (enough : count ≤ supply stack)
    (member : entry ∈ stack.take count) : entry.value.present = true := by
  have inside : stack.take count <+: stack.takeWhile (·.value.present) :=
    List.prefix_of_prefix_length_le (List.take_prefix _ _) (List.takeWhile_prefix _)
      (Nat.le_trans (List.length_take_le _ _) enough)
  have held := List.mem_takeWhile_imp (inside.subset member)
  exact held

end Stack

/-- A settled stack has a null on top. -/
theorem settle_shape (place : Span) (stack : List (Spanned Entry)) :
    ∃ ended below, Machine.settle place stack = ⟨.null, ended⟩ :: below := by
  obtain ⟨gone, rest, -, -, -, settled⟩ := Machine.settle_eq place stack
  exact ⟨_, _, settled⟩

theorem settle_alone (place : Span) {stack : List (Spanned Entry)} (few : supply stack ≤ 1)
    (single : (sunken stack).length ≤ 1) :
    ∃ ended, Machine.settle place stack.tail = [⟨.null, ended⟩] := by
  have bound := supply_add_sunken stack
  rcases stack with _ | ⟨top, _ | ⟨next, below⟩⟩
  case nil => exact ⟨place, rfl⟩
  case cons.nil => exact ⟨place, rfl⟩
  case cons.cons =>
    obtain rfl : below = [] := by
      simp only [List.length_cons] at bound
      exact List.length_eq_zero_iff.mp (by omega)
    -- Of two entries the upper one is present and the lower one is the null.
    have first : top.value.present = true := by
      obtain ⟨_ | _ | _, place⟩ := top
      case null => exact absurd single (by simp)
      all_goals rfl
    obtain ⟨_ | _ | _, ended⟩ := next
    case null => exact ⟨place.hull ended, rfl⟩
    all_goals
      rw [supply_cons first, supply_cons rfl] at few
      omega

/-! What waiting operators call for. -/

/-- By how much an operator that leaves makes the supply smaller; a bracket leaves it alone. -/
def Waiting.calls : Waiting → Nat
  | operator op => op.demand - 1
  | bracket => 0

def calls : List (Spanned Waiting) → Nat
  | [] => 0
  | entry :: below => entry.value.calls + calls below

@[simp] theorem calls_nil : calls [] = 0 := rfl

@[simp] theorem calls_cons (entry : Spanned Waiting) (below : List (Spanned Waiting)) :
    calls (entry :: below) = entry.value.calls + calls below := rfl

@[simp] theorem calls_append (first second : List (Spanned Waiting)) :
    calls (first ++ second) = calls first + calls second := by
  induction first with
  | nil => rw [List.nil_append, calls_nil, Nat.zero_add]
  | cons entry below ih => rw [List.cons_append, calls_cons, calls_cons, ih, Nat.add_assoc]

@[simp] theorem calls_waiting_nil : calls (waiting []) = 0 := rfl

@[simp] theorem calls_waiting_cons (entry : Spanned Operator) (later : List (Spanned Operator)) :
    calls (waiting (entry :: later)) = (entry.value.demand - 1) + calls (waiting later) := rfl

/-! Which faults a lack of operands can give. -/

/-- The fault of an operator that finds no operand or nothing to print. -/
def Fault.Malformed (fault : Fault) : Prop :=
  (∃ op span, fault = .inLine (.missingOperand op) span) ∨ ∃ span, fault = .inLine .printingNull span

/-- A fault that has nothing to do with how many operands there are. -/
inductive Fault.Usual : Fault → Prop where
  | unassigned (name : String) (span : Span) : Usual (.inLine (.unassignedVariable name) span)
  | expression (span : Span) : Usual (.inLine .assigningToExpression span)
  | unknown (handle : Handle) : Usual (.unknownHandle handle)

theorem Fault.Usual.not_malformed {fault : Fault} (usual : fault.Usual) : ¬ fault.Malformed := by
  rintro (⟨op, span, rfl⟩ | ⟨span, rfl⟩) <;> cases usual

/-- An operator takes operands from on top of the first null and leaves one. -/
structure Operator.Uses (op : Operator) (before after : List (Spanned Entry)) : Prop where
  enough : op.demand ≤ supply before
  supply : LineCalc.supply after + (op.demand - 1) = LineCalc.supply before
  sunken : LineCalc.sunken after = LineCalc.sunken before

namespace Machine

variable {naming : Naming} {machine : Machine} {op : Operator} {span : Span} {fault : Fault}

theorem uses_replaced {right left result : Spanned Entry} {below : List (Spanned Entry)}
    (binary : op.demand = 2) (first : right.value.present = true) (second : left.value.present = true)
    (made : result.value.present = true) : op.Uses (right :: left :: below) (result :: below) := by
  refine ⟨?_, ?_, ?_⟩
  · rw [binary, supply_cons first, supply_cons second]
    exact Nat.le_add_left 2 _
  · rw [binary, supply_cons made, supply_cons first, supply_cons second]
  · rw [sunken_cons made, sunken_cons first, sunken_cons second]

/-- An operator that does not stop has found its operands. -/
theorem execute_uses (waits : op ≠ .semicolon)
    (clean : (machine.execute naming ⟨.operator op, span⟩).fault = none) :
    op.Uses machine.stack (machine.execute naming ⟨.operator op, span⟩).state.stack := by
  cases op with
  | equals =>
    obtain ⟨right, left, below, result, shape, first, second, made, -, after⟩ := assign_goes clean
    rw [execute, after, shape]
    exact uses_replaced rfl first second made
  | arithmetic op =>
    obtain ⟨right, left, below, result, shape, first, second, made, -, after⟩ := calculate_goes clean
    rw [execute, after, shape]
    exact uses_replaced rfl first second made
  | print =>
    obtain ⟨top, below, shape, present⟩ := print_goes clean
    have same : (machine.execute naming ⟨.operator .print, span⟩).state = machine :=
      machine.print_state span
    rw [same]
    refine ⟨?_, rfl, rfl⟩
    rw [shape, supply_cons present]
    exact Nat.le_add_left 1 _
  | semicolon => exact absurd rfl waits

/-- With enough operands, nothing but their meaning can stop an operator. -/
theorem Stop.usual (stop : Stop naming machine ⟨.operator op, span⟩ fault)
    (enough : op.demand ≤ supply machine.stack) : fault.Usual := by
  have bound := supply_add_sunken machine.stack
  -- No null is as near as an operator looks.
  have apart {place : Span} {other : Operator}
      (read : Token.operator op = .operator other)
      (near : ⟨.null, place⟩ ∈ machine.stack.take other.demand) : False := by
    cases read
    exact Bool.false_ne_true (present_of_mem_take enough near)
  cases stop with
  | lacking read short =>
    cases read
    omega
  | unassigned => exact .unassigned _ _
  | usingNull read near => exact (apart read near).elim
  | printingNull read near => exact (apart read near).elim
  | assigningToNull read near => exact (apart read near).elim
  | assigningToExpression => exact .expression _
  | unspelled => exact .unknown _

/-- With one operand and a null further down, no operator finds the stack empty. -/
theorem Stop.not_malformed (stop : Stop naming machine ⟨.operator op, span⟩ fault)
    (stocked : 0 < supply machine.stack) (sunk : sunken machine.stack ≠ []) : ¬ fault.Malformed := by
  have bound := supply_add_sunken machine.stack
  have below := List.length_pos_iff.mpr sunk
  rintro (⟨other, place, rfl⟩ | ⟨place, rfl⟩)
  · cases stop with
    | lacking read short =>
      have most := other.demand_le
      omega
  · cases stop with
    | printingNull read near => exact Bool.false_ne_true (present_of_mem_take stocked near)

end Machine

/-- Operators that leave one after the other have taken what they call for and left something. -/
structure Paid (pending : List (Spanned Operator)) (before after : List (Spanned Entry)) : Prop where
  supply : LineCalc.supply after + calls (waiting pending) = LineCalc.supply before
  sunken : LineCalc.sunken after = LineCalc.sunken before
  stocked : pending ≠ [] → 0 < LineCalc.supply after

theorem Paid.fed {pending : List (Spanned Operator)} {before after : List (Spanned Entry)}
    (paid : Paid pending before after) (stocked : 0 < LineCalc.supply before) :
    0 < LineCalc.supply after := by
  by_cases none : pending = []
  · subst none
    have supply := paid.supply
    simp only [calls_waiting_nil] at supply
    omega
  · exact paid.stocked none

/-- How operators that leave one after the other may stop, depending on what is on the stack before
them. -/
structure Fault.Among (pending : List (Spanned Operator)) (before : List (Spanned Entry))
    (fault : Fault) : Prop where
  sustained : 0 < supply before → sunken before ≠ [] → ¬ fault.Malformed
  usual : pending = [] ∨ calls (waiting pending) < supply before → fault.Usual

theorem Fault.Usual.among {fault : Fault} (usual : fault.Usual) (pending : List (Spanned Operator))
    (before : List (Spanned Entry)) : fault.Among pending before :=
  ⟨fun _ _ => usual.not_malformed, fun _ => usual⟩

namespace Operator.Uses

variable {entry : Spanned Operator} {later : List (Spanned Operator)}
  {before middle after : List (Spanned Entry)}

theorem stocked (uses : entry.value.Uses before middle) (positive : 0 < entry.value.demand) :
    0 < LineCalc.supply middle := by
  have enough := uses.enough
  have supply := uses.supply
  omega

theorem paid (uses : entry.value.Uses before middle) (positive : 0 < entry.value.demand)
    (paid : Paid later middle after) : Paid (entry :: later) before after := by
  refine ⟨?_, paid.sunken.trans uses.sunken, fun _ => ?_⟩
  · have first := uses.supply
    have rest := paid.supply
    simp only [calls_waiting_cons]
    omega
  · by_cases last : later = []
    · subst last
      have rest := paid.supply
      have some := uses.stocked positive
      simp only [calls_waiting_nil] at rest
      omega
    · exact paid.stocked last

theorem among {fault : Fault} (uses : entry.value.Uses before middle)
    (positive : 0 < entry.value.demand) (among : fault.Among later middle) :
    fault.Among (entry :: later) before := by
  constructor
  · intro _ sunk
    rw [← uses.sunken] at sunk
    exact among.sustained (uses.stocked positive) sunk
  · rintro (none | few)
    · cases none
    · apply among.usual
      right
      have first := uses.supply
      simp only [calls_waiting_cons] at few
      omega

end Operator.Uses

/-- Operators that leave one after the other take what they call for, or stop for want of it. -/
theorem Evaluation.performAll_emitted (names : NameTable) {pending : List (Spanned Operator)}
    (unended : ∀ entry ∈ pending, entry.value ≠ .semicolon) (operands : List Span)
    (evaluation : Evaluation) :
    (performAll names (standard_total.emitAll pending operands).1 evaluation).Ensures
      (fun after => Paid pending evaluation.machine.stack after.machine.stack)
      (Fault.Among pending evaluation.machine.stack) := by
  induction pending generalizing operands evaluation with
  | nil => exact ⟨rfl, rfl, absurd rfl⟩
  | cons entry later ih =>
    obtain ⟨waits, others⟩ := List.forall_mem_cons.mp unended
    have positive := entry.value.demand_pos waits
    have first : (evaluation.perform (some names) ((standard_total.rule entry.value).token
        entry.value entry.span operands)).Ensures
          (fun reached => entry.value.Uses evaluation.machine.stack reached.machine.stack)
          (Fault.Among (entry :: later) evaluation.machine.stack) := by
      refine .of_cases (fun clean => Machine.execute_uses waits clean) fun fault stopped => ?_
      have stop := Machine.execute_stop stopped
      refine ⟨stop.not_malformed, fun few => stop.usual ?_⟩
      have less := few.resolve_left (List.cons_ne_nil entry later)
      simp only [calls_waiting_cons] at less
      omega
    refine first.andThen fun reached uses => ?_
    refine (ih others _ reached).mono ?_ ?_
    · intro after paid
      exact uses.paid positive paid
    · intro fault among
      exact uses.among positive among

theorem Evaluation.Ends.settles {names : NameTable} {ending : Evaluation → Outcome Evaluation}
    (ends : Ends names ending) {pending : List (Spanned Operator)}
    (unended : ∀ entry ∈ pending, entry.value ≠ .semicolon) (operands : List Span)
    (evaluation : Evaluation) :
    ((performAll names (standard_total.emitAll pending operands).1 evaluation).andThen
        ending).Ensures
      (fun after => ∃ middle place, Paid pending evaluation.machine.stack middle ∧
        after.machine.stack = Machine.settle place middle.tail)
      (Fault.Among pending evaluation.machine.stack) := by
  refine (performAll_emitted names unended operands evaluation).andThen fun reached paid => ?_
  obtain ⟨span, reach, events, -, same⟩ := ends reached
  rw [same]
  apply Outcome.Ensures.map
  apply Outcome.Ensures.following
  refine .of_cases (fun clean => ?_) fun fault stopped => ?_
  · obtain ⟨place, settled⟩ := Machine.endStatement_goes clean
    exact ⟨reached.machine.stack, place, paid, settled⟩
  · have usual := (Machine.endStatement_stop stopped).usual (Nat.zero_le _)
    exact usual.among pending _

end LineCalc
