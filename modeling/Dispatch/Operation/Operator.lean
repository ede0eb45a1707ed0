/-!
# Operators

The operators that a program can apply, with the symbols they are written with.

In the runtime: `BinaryOperator`, `UnaryOperator` and `BinaryKey`, with `resolved_operator`.
-/

namespace Dispatch

/-- An operator between two operands. -/
inductive BinaryOperator where
  | add
  | subtract
  | multiply
  | divide
  | integerDivide
  | modulo
  | power
  | concat
  | bitAnd
  | bitOr
  | bitXor
  | shiftLeft
  | shiftRight
  | equal
  | notEqual
  | less
  | lessEqual
  | greater
  | greaterEqual
deriving DecidableEq, Repr

def BinaryOperator.symbol : BinaryOperator → String
  | add => "+"
  | subtract => "-"
  | multiply => "*"
  | divide => "/"
  | integerDivide => "//"
  | modulo => "%"
  | power => "^"
  | concat => ".."
  | bitAnd => "&"
  | bitOr => "|"
  | bitXor => "~"
  | shiftLeft => "<<"
  | shiftRight => ">>"
  | equal => "=="
  | notEqual => "~="
  | less => "<"
  | lessEqual => "<="
  | greater => ">"
  | greaterEqual => ">="

/-- An operator on one operand. -/
inductive UnaryOperator where
  | negate
  | not
  | bitNot
  | length
deriving DecidableEq, Repr

def UnaryOperator.symbol : UnaryOperator → String
  | negate => "-"
  | not => "not"
  | bitNot => "~"
  | length => "#"

/-- An operator as it is asked for, with a flag that keeps a division in the integers. Only `/` reads
the flag. -/
structure BinaryRequest where
  operator : BinaryOperator
  integerDivision : Bool
deriving DecidableEq, Repr

namespace BinaryRequest

/-- The form under which equal requests are one: `//` is `/` with the flag set, and an operator that
does not divide has no flag. -/
def canonical : BinaryRequest → BinaryRequest
  | ⟨.integerDivide, _⟩ => ⟨.divide, true⟩
  | ⟨.divide, flag⟩ => ⟨.divide, flag⟩
  | ⟨operator, _⟩ => ⟨operator, false⟩

/-- The operator that a request stands for: `/` with the flag set is `//`. -/
def meaning : BinaryRequest → BinaryOperator
  | ⟨.divide, true⟩ => .integerDivide
  | ⟨operator, _⟩ => operator

/-- The symbol, with a remark if the division stays in the integers. -/
def label (r : BinaryRequest) : String :=
  r.operator.symbol ++ if r.integerDivision then " (integer)" else ""

theorem canonical_canonical (r : BinaryRequest) : r.canonical.canonical = r.canonical := by
  obtain ⟨o, _⟩ := r
  cases o <;> rfl

/-- The canonical form stands for the same operator. -/
theorem meaning_canonical (r : BinaryRequest) : r.canonical.meaning = r.meaning := by
  obtain ⟨o, f⟩ := r
  cases o <;> cases f <;> rfl

end BinaryRequest

end Dispatch
