import Dispatch.Ty.Basic

/-!
# The type registry

A registry knows one handle per number. It starts with the built-in types, hands out fresh numbers
in increasing order, and lets anyone put a handle under the number it carries, in place of the
handle that stood there. `identity` turns a handle from elsewhere into the one the registry knows.

In the runtime: `TypeRegistry` (`allocate_type_id`, `register`, `define_class`, `define_delegate`,
`get`, `identity`).

Main statements: what `register` puts in is what `get?` finds (`get?_register_self`), and nothing
else changes (`get?_register_of_ne`).
-/

namespace Dispatch

/-- The types known by number, and the number that the next new type gets. -/
structure Registry where
  types : List Ty
  next : UInt32

namespace Registry

def initial : Registry :=
  ⟨Ty.builtins, Ty.firstUserId⟩

/-- The handle known under a number. -/
def get? (r : Registry) (id : UInt32) : Option Ty :=
  r.types.find? fun t => t.id == id

def contains (r : Registry) (id : UInt32) : Bool :=
  (r.get? id).isSome

def size (r : Registry) : Nat :=
  r.types.length

/-- The handle known under the number of `t`, or `t` itself if there is none. -/
def identity (r : Registry) (t : Ty) : Ty :=
  (r.get? t.id).getD t

/-- Puts a handle in the place of the first one with its number, or else at the end. -/
def put (t : Ty) : List Ty → List Ty
  | [] => [t]
  | u :: us => if u.id == t.id then t :: us else u :: put t us

/-- Makes `t` the handle known under its number. -/
def register (r : Registry) (t : Ty) : Registry :=
  { r with types := put t r.types }

/-- The next unused number. Numbers have thirty-two bits and start over when they run out. -/
def allocate (r : Registry) : UInt32 × Registry :=
  (r.next, { r with next := r.next + 1 })

/-- Makes a type from the next number and registers it. -/
def define (r : Registry) (make : UInt32 → Ty) : Ty × Registry :=
  let (id, r) := r.allocate
  (make id, r.register (make id))

/-- Makes and registers a class, whose members only the host knows. -/
def defineClass (r : Registry) (name fullName : String) : Ty × Registry :=
  r.define fun id => .plain id name fullName .record

/-- Makes and registers a type of functions that declares what its callers see. -/
def defineDelegate (r : Registry) (name fullName : String) (signature : List (Param Ty)) :
    Ty × Registry :=
  r.define fun id => .delegate id name fullName signature

/-- A registry in which classes with these names and full names were defined, with their handles. -/
def ofClasses (classes : List (String × String)) : List Ty × Registry :=
  classes.foldl
    (fun (types, r) (name, fullName) =>
      let (t, r) := r.defineClass name fullName
      (types ++ [t], r))
    ([], initial)

def render (r : Registry) : String :=
  "TypeRegistry \x7b types: " ++ toString r.size ++ " \x7d"

theorem find?_put_self (t : Ty) (ts : List Ty) :
    (put t ts).find? (fun u => u.id == t.id) = some t := by
  induction ts with
  | nil => simp [put]
  | cons u us ih =>
    rw [put]
    split
    next => simp
    next h => simp [h, ih]

theorem find?_put_of_ne {t : Ty} {id : UInt32} (h : t.id ≠ id) (ts : List Ty) :
    (put t ts).find? (fun u => u.id == id) = ts.find? (fun u => u.id == id) := by
  induction ts with
  | nil => simp [put, h]
  | cons u us ih =>
    rw [put]
    split
    next hu =>
      have : u.id ≠ id := fun e => h (by rw [← e]; exact (beq_iff_eq.mp hu).symm)
      simp [h, this]
    next => simp [List.find?_cons, ih]

@[simp] theorem get?_register_self (r : Registry) (t : Ty) : (r.register t).get? t.id = some t :=
  find?_put_self t r.types

theorem get?_register_of_ne {r : Registry} {t : Ty} {id : UInt32} (h : t.id ≠ id) :
    (r.register t).get? id = r.get? id :=
  find?_put_of_ne h r.types

/-- A registered handle is its own identity. -/
@[simp] theorem identity_register_self (r : Registry) (t : Ty) :
    (r.register t).identity t = t := by
  simp [identity]

end Registry

end Dispatch
