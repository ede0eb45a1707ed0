import Dispatch.Operation.CallShape
import Dispatch.Operation.Operator
import Dispatch.Ty.Basic

/-!
# Operations

An operation is everything about a dynamic operation but its operands: the member that is read, the
shape of the call, the operator, the destination. Operations that are `==` are interchangeable;
destinations are compared by number, like all types.

Operands come in a row — the target, the arguments, the value to store — and `operandCount` says how
many an operation takes.

In the runtime: `Binder` (`operand_count`) and the keys of binders, `MemberKey` and
`InvokeMemberKey`.
-/

namespace Dispatch

/-- A member as it is looked up: by name, with or without regard to case. -/
structure MemberName where
  name : String
  ignoreCase : Bool
deriving DecidableEq, Repr

/-- The name, with a remark if case does not count. -/
def MemberName.label (m : MemberName) : String :=
  m.name ++ if m.ignoreCase then " (ignore case)" else ""

/-- A dynamic operation. -/
inductive Operation where
  | getMember (member : MemberName)
  | setMember (member : MemberName)
  | getIndex (call : CallShape)
  | setIndex (call : CallShape)
  | invoke (call : CallShape)
  | invokeMember (member : MemberName) (call : CallShape)
  | binary (request : BinaryRequest)
  | unary (operator : UnaryOperator)
  | convert (destination : Ty)
deriving BEq

namespace Operation

/-- A binary operation in the form under which equal requests are one. -/
def ofOperator (operator : BinaryOperator) (integerDivision : Bool) : Operation :=
  .binary (BinaryRequest.canonical ⟨operator, integerDivision⟩)

def kind : Operation → Operation.Kind
  | getMember _ => .getMember
  | setMember _ => .setMember
  | getIndex _ => .getIndex
  | setIndex _ => .setIndex
  | invoke _ => .invoke
  | invokeMember _ _ => .invokeMember
  | binary _ => .binary
  | unary _ => .unary
  | convert _ => .convert

/-- How many operands the operation takes. -/
def operandCount : Operation → Nat
  | getMember _ | unary _ | convert _ => 1
  | setMember _ | binary _ => 2
  | getIndex call | invoke call | invokeMember _ call => 1 + call.count
  | setIndex call => 2 + call.count

/-- What listings call the operation among those of its kind. -/
def label : Operation → String
  | getMember m | setMember m => m.label
  | getIndex call | setIndex call | invoke call => call.label
  | invokeMember m call => m.label ++ "#" ++ toString call.count
  | binary request => request.label
  | unary operator => operator.symbol
  | convert destination => destination.name

theorem operandCount_pos (op : Operation) : 0 < op.operandCount := by
  cases op <;> simp only [operandCount] <;> omega

/-- Interchangeable operations are the same, but for the handles on their destinations. -/
theorem beq_iff {a b : Operation} :
    (a == b) = true ↔ a = b ∨ ∃ s t, a = .convert s ∧ b = .convert t ∧ s.id = t.id := by
  cases a <;> cases b <;> simp [BEq.beq, instBEqOperation.beq]
  rintro rfl
  rfl

instance : EquivBEq Operation where
  rfl := beq_iff.mpr (.inl rfl)
  symm h := by
    rcases beq_iff.mp h with rfl | ⟨s, t, rfl, rfl, hid⟩
    · exact h
    · exact beq_iff.mpr (.inr ⟨t, s, rfl, rfl, hid.symm⟩)
  trans h k := by
    rcases beq_iff.mp h with rfl | ⟨s, t, rfl, rfl, hid⟩
    · exact k
    · rcases beq_iff.mp k with rfl | ⟨t', u, ht, rfl, kid⟩
      · exact h
      · cases ht
        exact beq_iff.mpr (.inr ⟨s, u, rfl, rfl, hid.trans kid⟩)

end Operation

end Dispatch
