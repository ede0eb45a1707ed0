import Dispatch.Fragment.Basic

/-!
# Shared trees

Fragments are immutable, so two handles may share one tree. `Shared` pairs a fragment with the
identity of its tree: copies of a handle keep it, and so does a coercion that changes nothing.

In the runtime: `Fragment.ptr_eq`.
-/

namespace Dispatch.Fragment

/-- A handle on a tree. -/
structure Shared where
  tree : Identity
  fragment : Fragment

namespace Shared

/-- Whether two handles share one tree. -/
def same (a b : Shared) : Bool :=
  a.tree == b.tree

/-- A handle on the coerced fragment: the tree `fresh`, unless the type is there already. -/
def coerce (s : Shared) (t : Ty) (fresh : Identity) : Shared :=
  ⟨if s.fragment.type == t then s.tree else fresh, s.fragment.coerce t⟩

end Shared

end Dispatch.Fragment
