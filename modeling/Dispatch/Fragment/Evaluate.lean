import Dispatch.Act
import Dispatch.Fragment.Basic

/-!
# Running a fragment

`evaluate` runs a fragment on the values of a call site's operands. What routines do is a parameter:
a routine may change the state, fail, panic, or run other code, and the fragment neither knows nor
cares. Arguments are evaluated before what they are passed to, from left to right, and the first
failure ends the run.

In the runtime: `Fragment.evaluate` and `evaluate_all`.
-/

namespace Dispatch

variable {σ : Type}

/-- A value on its way into a slot: nothing passes a `void` slot, and any other slot lets pass what
it accepts. -/
def Ty.admit (t : Ty) (v : Value) : Except Fault Value :=
  if t.isVoid then .ok .nil
  else if t.accepts v then .ok v
  else .error (.invalidCast v.type.name t.name)

namespace Fragment

mutual

/-- Runs a fragment on operand values; `call` says what routines do. -/
def evaluate (call : Body → List Value → Run σ Value) (operands : List Value) :
    Fragment → Run σ Value
  | constant v _ => pure v
  | zero t => pure t.zero
  | operand position _ =>
    match operands[position]? with
    | some v => pure v
    | none => throw (.missingOperand position)
  | raise message _ => throw (.raised message)
  | host _ args body _ => do
    let args ← evaluateAll call operands args
    call body args
  | invoke callee args _ => do
    let callee ← evaluate call operands callee
    let args ← evaluateAll call operands args
    match callee with
    | .callable c => call c.body args
    | other => throw (.notCallable other.type.name)
  | coerced inner t => do
    let v ← evaluate call operands inner
    match t.admit v with
    | .ok v => pure v
    | .error fault => throw fault
  | sequence first next => do
    let _ ← evaluate call operands first
    evaluate call operands next

/-- Runs fragments from left to right, up to the first that fails. -/
def evaluateAll (call : Body → List Value → Run σ Value) (operands : List Value) :
    List Fragment → Run σ (List Value)
  | [] => pure []
  | f :: fs => do
    let v ← evaluate call operands f
    let vs ← evaluateAll call operands fs
    pure (v :: vs)

end

end Fragment

end Dispatch
