import Dispatch.Guard.Basic

/-!
# How guards are shown

A check reads as a phrase on its operand, and a guard as the conjunction of its checks.

In the runtime: the descriptions of `Check` and `Guard`.
-/

namespace Dispatch

def Check.render (c : Check) : String :=
  "$" ++ toString c.operand ++
    match c.test with
    | .typeIs t => " is " ++ t.name
    | .isNil => " is nil"
    | .returns t => " returns " ++ t.name
    | .sameCallable f => " is fn " ++ f.name

/-- The text of a guard; one without checks is `true`. -/
def Guard.render (g : Guard) : String :=
  if g.checks.isEmpty then "true" else " && ".intercalate (g.checks.map Check.render)

end Dispatch
