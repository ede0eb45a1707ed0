import Dispatch.Binding.Binder
import Dispatch.Dispatcher.Settings
import Dispatch.Ty.Registry
import Dispatch.Value.Basic

/-!
# The dispatcher

A dispatcher owns the types, the settings and the binders of one program. All requests for one
operation share one binder until the shared binders are dropped: `request` looks the operation up
and makes a binder only if there is none. A binder is known by its number among all binders that the
dispatcher ever made, so a binder handed out before `clear` keeps working and is never handed out
again.

In the runtime: `Runtime` and its `RuntimeContext`, and `DispatchCache` (`get_or_create`,
`invoke_member`, `clear`, `len_of`) with `CacheStats`; `member` is what `get_member` and
`get_member_with_case` make of a name.

Main statements: a request shares the binder that it answers with (`lookup_request`), so asking
again answers with that one (`request_request`).
-/

namespace Dispatch

/-- The types, the settings and the binders of one program. -/
structure Dispatcher where
  settings : Settings
  types : Registry
  /-- The one empty result list that stands for no values. -/
  emptyResult : Value
  /-- All binders ever made; the number of a binder is its place. -/
  binders : Array Binder := #[]
  /-- The operations whose binders are shared, in the order of their first requests. -/
  shared : List (Operation × Nat) := []
  /-- Look-ups of an operation that had a binder. Like the counts below it has 64 bits, and starts
  again from zero behind the greatest number. -/
  hits : UInt64 := 0
  /-- Look-ups of an operation that had none. -/
  misses : UInt64 := 0
  /-- How often the shared binders were dropped. -/
  clears : UInt64 := 0

namespace Dispatcher

/-- A dispatcher with no binders yet. Its empty result list has a storage of its own. -/
def new (settings : Settings) (types : Registry) (storage : Identity) : Dispatcher where
  settings := settings
  types := types
  emptyResult := .result storage []

/-- A member as a program names it: whether case counts is as it is set, unless the program says. -/
def member (d : Dispatcher) (name : String) (ignoreCase : Option Bool) : MemberName where
  name := name
  ignoreCase := ignoreCase.getD d.settings.ignoreCase

/-- The shared binder of an operation. -/
def lookup (d : Dispatcher) (op : Operation) : Option Nat :=
  d.shared.lookup op

/-- Makes a binder that is not shared. -/
def make (d : Dispatcher) (op : Operation) (direct : Option Nat) : Nat × Dispatcher :=
  (d.binders.size, { d with binders := d.binders.push { operation := op, direct } })

/-- Makes a binder and shares it. -/
def add (d : Dispatcher) (op : Operation) (direct : Option Nat) : Nat × Dispatcher :=
  let (number, d) := d.make op direct
  (number, { d with shared := d.shared ++ [(op, number)] })

/-- The shared binder of an operation that needs no other binder. -/
def requestAlone (d : Dispatcher) (op : Operation) : Nat × Dispatcher :=
  match d.lookup op with
  | some number => (number, { d with hits := d.hits + 1 })
  | none => { d with misses := d.misses + 1 }.add op none

/-- The shared binder of an operation, made now if there is none. One that calls members comes with
the shared binder that calls values. -/
def request (d : Dispatcher) (op : Operation) : Nat × Dispatcher :=
  match op with
  | .invokeMember _ call =>
    match d.lookup op with
    | some number => (number, { d with hits := d.hits + 1 })
    | none =>
      let (direct, d) := { d with misses := d.misses + 1 }.requestAlone (.invoke call)
      d.add op (some direct)
  | op => d.requestAlone op

/-- Stops sharing all binders. -/
def clear (d : Dispatcher) : Dispatcher :=
  { d with shared := [], clears := d.clears + 1 }

def sharedOf (d : Dispatcher) (kind : Operation.Kind) : List (Operation × Nat) :=
  d.shared.filter fun entry => entry.1.kind = kind

def size (d : Dispatcher) : Nat :=
  d.shared.length

def tally (d : Dispatcher) (number : Nat) : Tally :=
  d.binders[number]?.elim {} Binder.tally

def modifyTally (d : Dispatcher) (number : Nat) (f : Tally → Tally) : Dispatcher :=
  { d with binders := d.binders.modify number fun b => { b with tally := f b.tally } }

theorem lookup_append_self {op : Operation} {number : Nat} {shared : List (Operation × Nat)}
    (h : shared.lookup op = none) : (shared ++ [(op, number)]).lookup op = some number := by
  induction shared with
  | nil => simp
  | cons entry rest ih =>
    obtain ⟨o, n⟩ := entry
    rw [List.cons_append, List.lookup_cons] at *
    split
    next he => simp [he] at h
    next he => exact ih (by simpa [he] using h)

/-- Adding a binder for one operation finds no binder for another that had none. -/
theorem lookup_append_of_ne {op other : Operation} {number : Nat} {shared : List (Operation × Nat)}
    (h : (op == other) = false) :
    (shared ++ [(other, number)]).lookup op = shared.lookup op := by
  induction shared with
  | nil => simp [List.lookup_cons, h]
  | cons entry rest ih =>
    obtain ⟨o, n⟩ := entry
    rw [List.cons_append, List.lookup_cons, List.lookup_cons, ih]

@[simp] theorem lookup_add (d : Dispatcher) (op : Operation) (direct : Option Nat)
    (h : d.lookup op = none) : (d.add op direct).2.lookup op = some (d.add op direct).1 :=
  lookup_append_self h

theorem lookup_requestAlone (d : Dispatcher) (op : Operation) :
    (d.requestAlone op).2.lookup op = some (d.requestAlone op).1 := by
  unfold requestAlone
  split
  next h => exact h
  next h => exact lookup_add _ _ _ h

/-- A request shares the binder that it answers with. -/
theorem lookup_request (d : Dispatcher) (op : Operation) :
    (d.request op).2.lookup op = some (d.request op).1 := by
  unfold request
  split
  next member call =>
    split
    next h => exact h
    next h =>
      refine lookup_add _ _ _ ?_
      show List.lookup _ (requestAlone _ _).2.shared = none
      unfold requestAlone
      split
      next => exact h
      next => exact (lookup_append_of_ne rfl).trans h
  next => exact lookup_requestAlone _ _

/-- A request for what is shared changes nothing but a count. -/
theorem request_of_lookup {d : Dispatcher} {op : Operation} {number : Nat}
    (h : d.lookup op = some number) : d.request op = (number, { d with hits := d.hits + 1 }) := by
  unfold request
  split
  next => simp only [h]
  next => simp only [requestAlone, h]

/-- Asking twice answers twice with the same binder. -/
theorem request_request (d : Dispatcher) (op : Operation) :
    ((d.request op).2.request op).1 = (d.request op).1 := by
  rw [request_of_lookup (lookup_request d op)]

@[simp] theorem lookup_clear (d : Dispatcher) (op : Operation) : d.clear.lookup op = none := rfl

end Dispatcher

end Dispatch
