/-!
# Types

A `Ty` is a handle on a type of the host: its number, its names, its kind and, for the type of a
function, the parameters a caller sees. The number alone says which type it is. Two handles with one
number are the same type whatever else they say, and `==` compares just the numbers; `=` compares
the handles.

The nine built-in types have the numbers 0 to 8, and numbers below `firstUserId` are theirs to keep.

In the runtime: `HostType`, `TypeKind`, `TypeId` and `Parameter`.
-/

namespace Dispatch

/-- What sort of type it is. -/
inductive Ty.Kind where
  | object
  | void
  | boolean
  | integer
  | number
  | text
  | result
  | table
  | callable
  | record
deriving DecidableEq, Repr

/-- Whether a slot of this kind may be empty: only truth values and numbers may not. -/
def Ty.Kind.isReference : Ty.Kind → Bool
  | .boolean | .integer | .number => false
  | _ => true

/-- A named parameter of type `τ`. -/
structure Param (τ : Type) where
  name : String
  type : τ
deriving BEq, Repr

/-- A handle on a type. -/
structure Ty where
  id : UInt32
  name : String
  fullName : String
  kind : Ty.Kind
  /-- The parameters a caller of a value of this type sees, where the type declares them. -/
  signature : Option (List (Param Ty))

namespace Ty

/-- The first number given to a type that is not built in. -/
def firstUserId : UInt32 := 256

/-- Whether a number belongs to the built-in types. -/
def isBuiltinId (id : UInt32) : Bool :=
  id < firstUserId

instance : BEq Ty := ⟨fun a b => a.id == b.id⟩

theorem beq_iff {a b : Ty} : (a == b) = true ↔ a.id = b.id := by
  show (a.id == b.id) = true ↔ _
  simp

instance : EquivBEq Ty where
  rfl := beq_iff.mpr rfl
  symm h := beq_iff.mpr (beq_iff.mp h).symm
  trans h k := beq_iff.mpr ((beq_iff.mp h).trans (beq_iff.mp k))

/-- A type of the given kind that declares no parameters. -/
def plain (id : UInt32) (name fullName : String) (kind : Ty.Kind) : Ty :=
  ⟨id, name, fullName, kind, none⟩

/-- A type of functions that declares what its callers see. -/
def delegate (id : UInt32) (name fullName : String) (signature : List (Param Ty)) : Ty :=
  ⟨id, name, fullName, .callable, some signature⟩

/-- The root of the reference types; nil counts as one of its values. -/
def object : Ty := plain 0 "object" "System.Object" .object
def void : Ty := plain 1 "void" "System.Void" .void
def boolean : Ty := plain 2 "boolean" "System.Boolean" .boolean
/-- The type of integers of sixty-four bits. -/
def integer : Ty := plain 3 "integer" "System.Int64" .integer
/-- The type of double-precision numbers. -/
def number : Ty := plain 4 "number" "System.Double" .number
def text : Ty := plain 5 "string" "System.String" .text
/-- The type of the lists of values that calls return. -/
def result : Ty := plain 6 "result" "Kestrel.Result" .result
def table : Ty := plain 7 "table" "Kestrel.Table" .table
/-- The type of functions that declare no parameters. -/
def function : Ty := plain 8 "function" "Kestrel.Function" .callable

/-- The built-in types in the order of their numbers. -/
def builtins : List Ty :=
  [object, void, boolean, integer, number, text, result, table, function]

def isObject (t : Ty) : Bool := t == object

def isVoid (t : Ty) : Bool := t == void

/-- The name with the number behind it, as in `Point#256`. -/
def tag (t : Ty) : String :=
  t.name ++ "#" ++ toString t.id

/-- The distinct types of a list, each at its first place. -/
def distinct (types : List Ty) : List Ty :=
  types.foldl (fun seen t => if seen.contains t then seen else seen ++ [t]) []

end Ty

end Dispatch
