import Dispatch.Resolver
import Dispatch.Rule

/-!
# What a program is told when binding fails

Binding never fails itself. Where an operation cannot be performed it makes a rule that raises an
error when the call site runs it. `Complaint` lists the causes and `Complaint.message` words them.

In the runtime: `raise` and the messages, from `cannot_read_member` to `not_callable`.
-/

namespace Dispatch

/-- Why an operation cannot be performed. -/
inductive Complaint where
  /-- Nil has no members and no indexes to read, and no indexes to write. -/
  | indexedNil
  /-- Nil cannot be called, nor can its members. -/
  | calledNil
  /-- Nil is no operand of a unary operator. -/
  | computedNil
  | unreadable (typeName member : String)
  | unwritable (typeName member : String)
  | notFound (typeName member : String)
  /-- There is no such member to call, or nothing to look a member up in. -/
  | notResolved (typeName member : String)
  | notCallable (typeName : String)
  | refused (reason : Refusal)

namespace Complaint

/-- The wording of a complaint; a refusal is passed on word for word. -/
def message : Complaint → String
  | indexedNil => "attempt to index a nil value"
  | calledNil => "attempt to call a nil value"
  | computedNil => "attempt to perform arithmetic on a nil value"
  | unreadable typeName member =>
    "cannot read member '" ++ member ++ "' of type '" ++ typeName ++ "'"
  | unwritable typeName member =>
    "cannot write member '" ++ member ++ "' of type '" ++ typeName ++ "'"
  | notFound typeName member =>
    "member '" ++ member ++ "' not found on type '" ++ typeName ++ "'"
  | notResolved typeName member =>
    "member '" ++ member ++ "' not resolved on type '" ++ typeName ++ "'"
  | notCallable typeName => "type '" ++ typeName ++ "' is not callable"
  | refused reason => reason.text

/-- The rule that raises a complaint where a value of a type is due. -/
def rule (c : Complaint) (type : Ty) (guard : Guard) : Rule :=
  .raise c.message type guard

end Complaint

end Dispatch
