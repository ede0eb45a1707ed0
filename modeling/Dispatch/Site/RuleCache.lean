import Dispatch.Rule

/-!
# The rule cache of a call site

A call site keeps the rules it was given and uses them again while their guards hold. It starts
empty, keeps one rule, then several up to a limit, and past the limit gives up and keeps none:

    empty → monomorphic → polymorphic → megamorphic

Nothing but a reset leads back. `find?` answers with the earliest rule that applies, and `record`
takes in a rule unless one with an equal guard is there.

In the runtime: `SiteState` (`lookup`, `covers`, `record`) and `SiteClassification`.
-/

namespace Dispatch

/-- The rules that a call site keeps. -/
inductive RuleCache where
  | empty
  | monomorphic (rule : Rule)
  | polymorphic (rules : List Rule)
  | megamorphic

/-- What can be seen of a rule cache from outside. -/
inductive Classification where
  | uninitialized
  | monomorphic
  | bimorphic
  | polymorphic
  /-- Past the limit; no rules are kept. -/
  | megamorphic
deriving DecidableEq, Repr

def Classification.name : Classification → String
  | uninitialized => "Uninitialized"
  | monomorphic => "Monomorphic"
  | bimorphic => "Bimorphic"
  | polymorphic => "Polymorphic"
  | megamorphic => "Megamorphic"

namespace RuleCache

/-- The rules in the order in which they were recorded. -/
def rules : RuleCache → List Rule
  | empty | megamorphic => []
  | monomorphic r => [r]
  | polymorphic rs => rs

/-- The earliest rule that applies to operand values. -/
def find? (c : RuleCache) (operands : List Value) : Option Rule :=
  c.rules.find? (·.applies operands)

/-- Whether a rule with an equal guard is there. -/
def covers (c : RuleCache) (g : Guard) : Bool :=
  c.rules.any (·.guard == g)

/-- Takes in a rule, at most `limit` in all; one too many and the cache gives up. -/
def record (limit : Nat) (r : Rule) (c : RuleCache) : RuleCache :=
  if c.covers r.guard then c
  else match c with
    | empty => if limit = 0 then megamorphic else monomorphic r
    | monomorphic first => if limit < 2 then megamorphic else polymorphic [first, r]
    | polymorphic rs => if rs.length < limit then polymorphic (rs ++ [r]) else megamorphic
    | megamorphic => megamorphic

def classification : RuleCache → Classification
  | empty => .uninitialized
  | monomorphic _ => .monomorphic
  | polymorphic rs => if rs.length ≤ 2 then .bimorphic else .polymorphic
  | megamorphic => .megamorphic

@[simp] theorem rules_empty : empty.rules = [] := rfl

@[simp] theorem rules_megamorphic : megamorphic.rules = [] := rfl

@[simp] theorem rules_monomorphic (r : Rule) : (monomorphic r).rules = [r] := rfl

@[simp] theorem rules_polymorphic (rs : List Rule) : (polymorphic rs).rules = rs := rfl

@[simp] theorem record_megamorphic (limit : Nat) (r : Rule) :
    megamorphic.record limit r = megamorphic := rfl

/-- Recording keeps the rules and adds at most the new one at the end, or gives up. -/
theorem record_cases (limit : Nat) (r : Rule) (c : RuleCache) :
    c.record limit r = c ∨ (c.record limit r).rules = c.rules ++ [r] ∨
      c.record limit r = megamorphic := by
  unfold record
  split
  next => exact .inl rfl
  next =>
    cases c with
    | empty =>
      dsimp only
      split
      next => exact .inr (.inr rfl)
      next => exact .inr (.inl rfl)
    | monomorphic first =>
      dsimp only
      split
      next => exact .inr (.inr rfl)
      next => exact .inr (.inl rfl)
    | polymorphic rs =>
      dsimp only
      split
      next => exact .inr (.inl rfl)
      next => exact .inr (.inr rfl)
    | megamorphic => exact .inl rfl

/-- A cache within its limit stays within it. -/
theorem length_rules_record {limit : Nat} {c : RuleCache} (h : c.rules.length ≤ limit) (r : Rule) :
    (c.record limit r).rules.length ≤ limit := by
  unfold record
  split
  next => exact h
  next =>
    cases c with
    | empty =>
      dsimp only
      split
      next => simp
      next => simp only [rules_monomorphic, List.length_singleton]; omega
    | monomorphic first =>
      dsimp only
      split
      next => simp
      next => simp only [rules_polymorphic, List.length_cons, List.length_nil]; omega
    | polymorphic rs =>
      dsimp only
      split
      next hlt =>
        rw [rules_polymorphic, List.length_append]
        exact hlt
      next => simp
    | megamorphic => simp

end RuleCache

end Dispatch
