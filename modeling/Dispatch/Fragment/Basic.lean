import Dispatch.Value.Basic

/-!
# Fragments

A fragment is the code half of a rule: a small tree that reads the operands of a call site by
position and produces a value or fails. Every fragment has a result type. A `void` fragment is run
only for its effect.

`coerce` and `andThen` build larger fragments from smaller ones; a coercion to the type that a
fragment already has is the fragment itself.

In the runtime: `Fragment` and its `Node` (`constant`, `coerce`, `then`, `raised_message`).
-/

namespace Dispatch

/-- Code that reads operands by position. -/
inductive Fragment where
  | constant (value : Value) (type : Ty)
  /-- The value of a slot that nothing was stored in. -/
  | zero (type : Ty)
  | operand (position : Nat) (type : Ty)
  | raise (message : String) (type : Ty)
  /-- A routine applied to arguments. -/
  | host (name : String) (args : List Fragment) (body : Body) (type : Ty)
  /-- The function that `callee` produces, applied to arguments. -/
  | invoke (callee : Fragment) (args : List Fragment) (type : Ty)
  /-- The value of `inner`, if the type takes it. -/
  | coerced (inner : Fragment) (type : Ty)
  /-- `first` for its effect, then `next` for its value. -/
  | sequence (first next : Fragment)

namespace Fragment

instance : Inhabited Fragment := ⟨.zero .object⟩

/-- A constant whose result type is the type of its value. -/
def ofValue (v : Value) : Fragment :=
  .constant v v.type

/-- The type that a fragment is declared to produce. -/
def type : Fragment → Ty
  | constant _ t | zero t | operand _ t | raise _ t => t
  | host _ _ _ t => t
  | invoke _ _ t => t
  | coerced _ t => t
  | sequence _ next => next.type

/-- The fragment with its value checked against a type, unless it has that type already. -/
def coerce (f : Fragment) (t : Ty) : Fragment :=
  if f.type == t then f else .coerced f t

/-- Runs `f` for its effect and then `next` for its value. -/
def andThen (f next : Fragment) : Fragment :=
  .sequence f next

/-- The message of a fragment that does nothing but raise an error. -/
def raised? : Fragment → Option String
  | raise message _ => some message
  | _ => none

/-- Whether a fragment does nothing but raise an error. -/
def isRaise (f : Fragment) : Bool :=
  f.raised?.isSome

theorem coerce_of_beq {f : Fragment} {t : Ty} (h : f.type == t) : f.coerce t = f :=
  if_pos h

/-- A coercion has the type coerced to, whichever handle on it. -/
theorem type_coerce_beq (f : Fragment) (t : Ty) : (f.coerce t).type == t := by
  unfold coerce
  split
  next h => exact h
  next => exact BEq.rfl

@[simp] theorem type_andThen (f next : Fragment) : (f.andThen next).type = next.type := rfl

end Fragment

end Dispatch
