import Dispatch.Act

/-!
# Call shapes

The shape of a call or an index says how many arguments there are and which of the last ones are
named. There are never more names than arguments; `named` panics rather than make such a shape.

In the runtime: `CallShape` (`positional`, `named`, `positional_count`).
-/

namespace Dispatch

/-- How many arguments there are, and the names of the last ones. -/
structure CallShape where
  count : Nat
  names : List String
  names_le : names.length ≤ count := by simp
deriving DecidableEq, Repr

namespace CallShape

/-- A shape without names. -/
def positional (count : Nat) : CallShape where
  count := count
  names := []

/-- A shape whose last arguments have these names. -/
def named (count : Nat) (names : List String) : Except Panic CallShape :=
  if h : names.length ≤ count then .ok ⟨count, names, h⟩
  else .error (.excessNames names.length count)

/-- How many arguments come before the named ones. -/
def positionalCount (c : CallShape) : Nat :=
  c.count - c.names.length

/-- The number of arguments, with their names in parentheses if there are any. -/
def label (c : CallShape) : String :=
  "Args" ++ toString c.count ++
    if c.names.isEmpty then "" else "(" ++ ",".intercalate c.names ++ ")"

theorem named_eq_ok_iff {count : Nat} {names : List String} {c : CallShape} :
    named count names = .ok c ↔ c.count = count ∧ c.names = names := by
  obtain ⟨n, ns, h⟩ := c
  unfold named
  split <;> simp <;> grind

end CallShape

end Dispatch
