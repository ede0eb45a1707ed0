import Dispatch.Ty.Basic

/-!
# Values

The values that dynamic operations work on. Functions and host objects are told apart by who they
are, not by what they say, and so they carry an `Identity`; a result list carries the identity of
its storage, because two handles on one storage are equal whatever it holds.

`Value.type` is the exact type of a value and `Ty.accepts` says which values a slot of a type takes.

In the runtime: `Value`, `MultiResult`, `Callable` and `HostObject`, with `HostType.default_value`
and `accepts`.
-/

namespace Dispatch

/-- What tells apart two live things that may look the same. -/
structure Identity where
  index : Nat
deriving DecidableEq, Repr, Inhabited

/-- Code that runs on evaluated arguments: a routine of the host, known by its number, or the one
routine of the library, which packs a value into a result list. -/
inductive Body where
  | native (index : Nat)
  | pack
deriving DecidableEq, Repr

/-- A function value. `params` are the parameters of the routine behind it; there may be more of
them than its type declares, for what was bound when the value was made. -/
structure Callable where
  identity : Identity
  name : String
  type : Ty
  params : List (Param Ty)
  returns : Ty
  body : Body

/-- Whether two handles are of the very same function. -/
def Callable.same (a b : Callable) : Bool :=
  a.identity == b.identity

/-- A function whose routine has just the parameters that its type declares. -/
def Callable.declared (identity : Identity) (name : String) (type returns : Ty) (body : Body) :
    Callable :=
  ⟨identity, name, type, type.signature.getD [], returns, body⟩

/-- An object of the host; only the host sees what is in it. -/
structure Foreign where
  identity : Identity
  type : Ty

/-- A value of the language. -/
inductive Value where
  | nil
  | boolean (b : Bool)
  | integer (i : Int64)
  | number (x : Float)
  | text (s : String)
  | result (storage : Identity) (values : List Value)
  | callable (c : Callable)
  | object (o : Foreign)

instance : Inhabited Value := ⟨.nil⟩

namespace Value

/-- The exact type of a value; nil counts as an object. -/
def type : Value → Ty
  | nil => .object
  | boolean _ => .boolean
  | integer _ => .integer
  | number _ => .number
  | text _ => .text
  | result _ _ => .result
  | callable c => c.type
  | object o => o.type

def isNil : Value → Bool
  | nil => true
  | _ => false

theorem eq_nil_of_isNil {v : Value} (h : v.isNil = true) : v = nil := by
  cases v with
  | nil => rfl
  | _ => cases h

def boolean? : Value → Option Bool
  | boolean b => some b
  | _ => none

/-- The integer in a value; no other number is one. -/
def integer? : Value → Option Int64
  | integer i => some i
  | _ => none

/-- The number in a value; an integer widens to the nearest one. -/
def number? : Value → Option Float
  | integer i => some i.toFloat
  | number x => some x
  | _ => none

def text? : Value → Option String
  | text s => some s
  | _ => none

/-- The values of a result list. -/
def result? : Value → Option (List Value)
  | result _ values => some values
  | _ => none

def callable? : Value → Option Callable
  | callable c => some c
  | _ => none

def object? : Value → Option Foreign
  | object o => some o
  | _ => none

/-- The first of a list of values, or nil if there is none. -/
def first (values : List Value) : Value :=
  values.headD nil

mutual

/-- Equality of values. Nothing equals a value of another sort, numbers compare as numbers (so one
that is not a number differs from itself), functions and objects compare by identity, and result
lists are equal if they share storage or agree element by element. -/
def equal : Value → Value → Bool
  | nil, nil => true
  | boolean a, boolean b => a == b
  | integer a, integer b => a == b
  | number a, number b => a == b
  | text a, text b => a == b
  | result s as, result t bs => s == t || equalAll as bs
  | callable a, callable b => a.same b
  | object a, object b => a.identity == b.identity
  | _, _ => false

/-- Equality of two lists of values: the same length and equal elements. -/
def equalAll : List Value → List Value → Bool
  | [], [] => true
  | a :: as, b :: bs => equal a b && equalAll as bs
  | _, _ => false

end

instance : BEq Value := ⟨equal⟩

/-- Whether two values are result lists that share storage, if both are result lists at all. -/
def sharesStorage : Value → Value → Option Bool
  | result s _, result t _ => some (s == t)
  | _, _ => none

end Value

namespace Ty

/-- The value that a slot of this type holds before anything is stored in it. -/
def zero (t : Ty) : Value :=
  match t.kind with
  | .boolean => .boolean false
  | .integer => .integer 0
  | .number => .number 0
  | _ => .nil

/-- Whether a slot of this type takes a value as it is: anything goes into an object slot, nil into
a slot of any reference type, and other values only into a slot of their exact type. -/
def accepts (t : Ty) (v : Value) : Bool :=
  if t.isObject then true
  else if v.isNil then t.kind.isReference
  else v.type == t

@[simp] theorem object_accepts (v : Value) : object.accepts v = true := rfl

end Ty

end Dispatch
