import Dispatch.Guard.Basic

/-!
# What a call supplies

A function value has two lists of parameters: those that its type declares, which callers see, and
those of the routine behind it. The routine may have more in front, which were bound when the value
was made and which no caller supplies; `formal` leaves these out. A routine with fewer parameters
than declared is taken as it is.

A rule for a call depends on the formal list. Where that is the list that the type declares, the
type and the return type say all there is to know; otherwise only the function itself does.

In the runtime: `formal_parameters` and `callable_guard`.
-/

namespace Dispatch.Callable

/-- The parameters that a caller supplies. -/
def formal (c : Callable) : List (Param Ty) :=
  match c.type.signature with
  | some declared => c.params.drop (c.params.length - declared.length)
  | none => c.params

/-- Whether a caller supplies just what the type declares. -/
def formalIsDeclared (c : Callable) : Bool :=
  c.type.signature.any (· == c.formal)

/-- What a rule for a call depends on beyond the types of the operands. -/
def guard (c : Callable) : Guard :=
  if c.formalIsDeclared then .returns 0 c.returns else .sameCallable 0 c

/-- The formal list is the end of the routine's. -/
theorem formal_isSuffix (c : Callable) : c.formal <:+ c.params := by
  unfold formal
  split
  next => exact List.drop_suffix _ _
  next => exact List.suffix_refl _

/-- A declared signature bounds the formal list, which is as long as there is anything to take. -/
theorem length_formal {c : Callable} {declared : List (Param Ty)}
    (h : c.type.signature = some declared) :
    c.formal.length = min declared.length c.params.length := by
  simp only [formal, h, List.length_drop]
  omega

/-- The guard of a call holds on the function it was made for. -/
theorem check_guard (c : Callable) (args : List Value) :
    c.guard.check (.callable c :: args) = true := by
  unfold guard
  split <;> simp [Guard.check, Guard.checks, Guard.returns, Guard.sameCallable, Check.passes,
    Test.passes, Value.callable?, same]

end Dispatch.Callable
