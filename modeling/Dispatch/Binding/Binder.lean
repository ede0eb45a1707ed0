import Dispatch.Operation.Basic
import Dispatch.Rule

/-!
# Binders and what they count

A binder stands for an operation wherever a program performs it, and keeps a tally of what it was
asked: how many rules it produced, how often it had to put off, and which different guards its rules
had, up to a limit.

In the runtime: `Binding` and `BinderStats` (`bound`, `deferred`, `guard_variants`).
-/

namespace Dispatch

/-- What is answered to a request to bind. -/
inductive Binding where
  /-- Ask again once the operands at these positions have values. -/
  | deferred (pending : List Nat)
  | bound (rule : Rule)

/-- The rule of a binding, if it was not put off. -/
def Binding.rule? : Binding → Option Rule
  | deferred _ => none
  | bound r => some r

def Binding.isDeferred : Binding → Bool
  | deferred _ => true
  | bound _ => false

/-- What a binder remembers of its answers. Rules and deferrals are counted without a bound here:
counts of 64 bits are the same as long as fewer than `2 ^ 64` answers were counted. -/
structure Tally where
  rules : Nat := 0
  deferrals : Nat := 0
  /-- The first different guards of its rules. -/
  variants : List Guard := []

namespace Tally

/-- How many different guards are remembered. -/
def variantLimit : Nat := 128

/-- Counts a rule, and remembers its guard if it is new and there is room. -/
def countRule (t : Tally) (r : Rule) : Tally where
  rules := t.rules + 1
  deferrals := t.deferrals
  variants :=
    if t.variants.length < variantLimit && !t.variants.contains r.guard then
      t.variants ++ [r.guard]
    else t.variants

def countDeferral (t : Tally) : Tally :=
  { t with deferrals := t.deferrals + 1 }

end Tally

/-- An operation with the tally of its answers. A binder that calls members hands calls of functions
over to the binder `direct`, which calls values with the same arguments. -/
structure Binder where
  operation : Operation
  direct : Option Nat := none
  tally : Tally := {}

/-- The binder whose tally counts the rule for some operands, where this one has number `self`. -/
def Binder.creditee (self : Nat) (b : Binder) (operands : List Operand) : Nat :=
  match b.operation, operands with
  | .invokeMember _ _, target :: _ => if target.callable?.isSome then b.direct.getD self else self
  | _, _ => self

end Dispatch
