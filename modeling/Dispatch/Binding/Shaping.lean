import Dispatch.Fragment.Basic

/-!
# Shaping what the resolver answers

An operation promises a type, and the resolver's fragment may produce another. `returning` makes any
fragment keep the promise. A call promises a result list, and `returningResult` makes one of what the
call returns: a list stays as it is, nothing becomes the empty list, and any other value a list of
its own.

In the runtime: `ensure_type` and `ensure_result`.
-/

namespace Dispatch.Fragment

/-- The fragment as one of the type `t`. Anything but nothing will do for an object; nothing becomes
the zero of `t`; and all else is checked when it runs. -/
def returning (f : Fragment) (t : Ty) : Fragment :=
  if f.type == t || (t.isObject && !f.type.isVoid) then f
  else if f.type.isVoid then f.andThen (.zero t)
  else f.coerce t

/-- The fragment as one that produces a result list, where `empty` stands for no values. -/
def returningResult (f : Fragment) (empty : Value) : Fragment :=
  if f.type == .result then f
  else if f.type.isVoid then f.andThen (.constant empty .result)
  else .host "result" [f] .pack .result

end Dispatch.Fragment
