import Dispatch.Act
import Dispatch.Operand
import Dispatch.Operation.Basic

/-!
# The resolver

The resolver is the host's half of a dynamic operation. Asked about types and an operation it
answers with a fragment that performs the operation, or says why there is none. Binding does all the
rest: waiting for operands, nil, guards and errors.

Fragments find their operands by position: the target at 0, the arguments from 1 on, and a value to
store behind them. A resolver is a record of actions, because a host may do anything while it
answers, even run the very call site that is asking.

In the runtime: `Resolver`, with `MemberRead`, `MemberWrite` and `ResolveError`.
-/

namespace Dispatch

/-- Why the resolver has no fragment for an operation. -/
inductive Refusal where
  | unsupportedOperator (operator left right : String)
  | noIndexer (target indexes : String)
  | ambiguousOverload (target member : String)
  | parameterMismatch (member : String) (argumentCount : Nat)
  | noConversion (source target : String)
  | other (message : String)
deriving DecidableEq, Repr

/-- What a program is told of a refusal. -/
def Refusal.text : Refusal → String
  | unsupportedOperator operator left right =>
    "operator '" ++ operator ++ "' is not supported for '" ++ left ++ "' and '" ++ right ++ "'"
  | noIndexer target indexes => "no indexer on '" ++ target ++ "' accepts (" ++ indexes ++ ")"
  | ambiguousOverload target member => "ambiguous call to '" ++ member ++ "' on '" ++ target ++ "'"
  | parameterMismatch member argumentCount =>
    "no overload of '" ++ member ++ "' accepts " ++ toString argumentCount ++ " argument(s)"
  | noConversion source target => "cannot convert '" ++ source ++ "' to '" ++ target ++ "'"
  | other message => message

/-- A fragment, or why there is none. -/
abbrev Resolution := Except Refusal Fragment

/-- What comes of looking up a member to read. -/
inductive ReadAnswer where
  | resolved (fragment : Fragment)
  | notReadable
  | notFound

/-- What comes of looking up a member to write. -/
inductive WriteAnswer where
  | resolved (fragment : Fragment)
  | notWritable
  | notFound

/-- The host's answers to binding. -/
structure Resolver (σ : Type) where
  getMember (target : Ty) (member : MemberName) : Act σ ReadAnswer
  /-- Write a member of a value of a type; `converted` is the value, as a member of a type needs
  it. -/
  setMember (target : Ty) (member : MemberName) (converted : Ty → Act σ Resolution) :
    Act σ WriteAnswer
  getIndex (target : Operand) (indexes : List Operand) : Act σ Resolution
  setIndex (target : Operand) (indexes : List Operand) (value : Operand) : Act σ Resolution
  /-- Call a member of the target, looked up in the type `identity`; it may not be there. -/
  invokeMember (identity : Ty) (call : CallShape) (target : Operand) (args : List Operand)
    (member : MemberName) : Act σ (Except Refusal (Option Fragment))
  /-- Match arguments with formal parameters; `invoke` makes the call from its arguments. -/
  bindParameters (formal : List (Param Ty)) (call : CallShape) (args : List Operand)
    (invoke : List Fragment → Fragment) : Act σ Resolution
  binary (operator : BinaryOperator) (left right : Operand) : Act σ Resolution
  unary (operator : UnaryOperator) (operand : Operand) : Act σ Resolution
  convert (source : Fragment) (destination : Ty) : Act σ Resolution

end Dispatch
