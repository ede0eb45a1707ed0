/-!
# The nine kinds of operation

A dynamic operation reads or writes a member or an index, calls a value or a member, applies an
operator, or converts. Each kind has a name, a tag for messages and a heading for listings.

In the runtime: `OperationKind`.
-/

namespace Dispatch

/-- What a dynamic operation does. -/
inductive Operation.Kind where
  | getMember
  | setMember
  | getIndex
  | setIndex
  | invoke
  | invokeMember
  | binary
  | unary
  | convert
deriving DecidableEq, Repr

namespace Operation.Kind

/-- The kinds in the order of listings. -/
def all : List Operation.Kind :=
  [binary, unary, getMember, setMember, getIndex, setIndex, invoke, invokeMember, convert]

theorem mem_all (k : Operation.Kind) : k ∈ all := by
  cases k <;> decide

def name : Operation.Kind → String
  | getMember => "GetMember"
  | setMember => "SetMember"
  | getIndex => "GetIndex"
  | setIndex => "SetIndex"
  | invoke => "Invoke"
  | invokeMember => "InvokeMember"
  | binary => "BinaryOperation"
  | unary => "UnaryOperation"
  | convert => "Convert"

/-- What messages call a kind. -/
def tag : Operation.Kind → String
  | getMember => "get_member"
  | setMember => "set_member"
  | getIndex => "get_index"
  | setIndex => "set_index"
  | invoke => "invoke"
  | invokeMember => "invoke_member"
  | binary => "binary_operation"
  | unary => "unary_operation"
  | convert => "convert"

/-- The line above the operations of a kind in a listing. -/
def heading : Operation.Kind → String
  | getMember => "GetMember Binders"
  | setMember => "SetMember Binders"
  | getIndex => "Get Index Binders"
  | setIndex => "Set Index Binders"
  | invoke => "Invoke Binders"
  | invokeMember => "Invoke Member Binders"
  | binary => "Binary Operation Binders"
  | unary => "Unary Operation Binders"
  | convert => "Convert Binders"

end Operation.Kind

end Dispatch
