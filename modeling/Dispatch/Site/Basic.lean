import Dispatch.Site.RuleCache

/-!
# Call sites

A call site performs one operation again and again. An execution has two parts, because between them
the host may do anything, even execute the same site: `lookUp` finds a rule that applies and counts
a hit or a miss, and `keep` records the rule that was bound after a miss. A rule that does not apply
to the very operands it was bound for is run once and not kept.

In the runtime: `CallSite` (`hits`, `misses`, `hit_rate`, `classification`, `reset`).
-/

namespace Dispatch

/-- A binder: the number of its dispatcher, and its own number there. -/
structure BinderRef where
  dispatcher : Nat
  binder : Nat
deriving DecidableEq, Repr

/-- A place in a program where an operation is performed. -/
structure Site where
  binder : BinderRef
  kind : Operation.Kind
  /-- The rule to use where the operation is refused. -/
  fallback : Option Rule := none
  /-- How many rules are kept. -/
  maxRules : Nat
  cache : RuleCache := .empty
  /-- Executions for which a rule was found. This and the next count have no bound here: counts of 64
  bits are the same as long as fewer than `2 ^ 64` executions were counted. -/
  hits : Nat := 0
  /-- Executions for which none was. -/
  misses : Nat := 0

namespace Site

/-- Looks for a rule that applies and counts whether there is one. -/
def lookUp (s : Site) (operands : List Value) : Option Rule × Site :=
  match s.cache.find? operands with
  | some r => (some r, { s with hits := s.hits + 1 })
  | none => (none, { s with misses := s.misses + 1 })

/-- Records a rule that was bound for some operands, if it applies to them. -/
def keep (r : Rule) (operands : List Value) (s : Site) : Site :=
  if r.applies operands then { s with cache := s.cache.record s.maxRules r } else s

/-- Forgets all rules, but not the counts. -/
def reset (s : Site) : Site :=
  { s with cache := .empty }

/-- What is seen of the rules of a call site. -/
def classification (s : Site) : Classification :=
  s.cache.classification

def ruleCount (s : Site) : Nat :=
  s.cache.rules.length

/-- How many executions of a hundred found a rule; none of none. -/
def hitRate (s : Site) : Float :=
  let total := s.hits + s.misses
  if total = 0 then 0 else s.hits.toFloat / total.toFloat * 100

def render (s : Site) : String :=
  "CallSite \x7b kind: " ++ s.kind.name ++ ", classification: " ++ s.classification.name ++
    ", hits: " ++ toString s.hits ++ ", misses: " ++ toString s.misses ++ " \x7d"

@[simp] theorem cache_lookUp (s : Site) (operands : List Value) :
    (s.lookUp operands).2.cache = s.cache := by
  unfold lookUp
  split <;> rfl

end Site

end Dispatch
