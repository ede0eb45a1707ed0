import Dispatch.Fragment.Evaluate
import Dispatch.Guard.Basic

/-!
# Rules

A rule is a fragment with the guard under which it may be used again. Running a rule does not look
at its guard: whoever runs it has looked, or has just made the rule for these very operands.

In the runtime: `GuardedFragment` (`is_error`, `matches`, `execute`).
-/

namespace Dispatch

/-- Code and the condition for using it again. -/
structure Rule where
  fragment : Fragment
  guard : Guard

instance : Inhabited Rule := ⟨⟨default, .always⟩⟩

namespace Rule

/-- A rule that raises an error of a declared type. -/
def raise (message : String) (type : Ty) (guard : Guard) : Rule :=
  ⟨.raise message type, guard⟩

def isError (r : Rule) : Bool :=
  r.fragment.isRaise

/-- Whether a rule may be used on operand values. -/
def applies (r : Rule) (operands : List Value) : Bool :=
  r.guard.check operands

def run {σ : Type} (call : Body → List Value → Run σ Value) (r : Rule) (operands : List Value) :
    Run σ Value :=
  r.fragment.evaluate call operands

end Rule

end Dispatch
