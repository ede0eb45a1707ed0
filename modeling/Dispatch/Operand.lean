import Dispatch.Fragment.Basic

/-!
# Operands as a binder sees them

Of one operand of a call site a binder knows the type that was known statically and, once there is
one, the value. The *limit type* is the most that is known: the exact type of a value other than
nil, and the static type otherwise.

In the runtime: `OperandDescriptor` (`limit_type`, `fragment`) and `Deferral.collect`.
-/

namespace Dispatch

/-- One operand of a call site. -/
structure Operand where
  static : Ty
  value : Option Value

namespace Operand

/-- An operand whose value is not there yet. -/
def unknown (static : Ty) : Operand :=
  ⟨static, none⟩

/-- An operand with a value, seen through a static type. -/
def knownAs (v : Value) (static : Ty) : Operand :=
  ⟨static, some v⟩

/-- An operand with a value about which nothing was known statically. -/
def known (v : Value) : Operand :=
  knownAs v .object

def isKnown (o : Operand) : Bool :=
  o.value.isSome

def isNil (o : Operand) : Bool :=
  o.value.any Value.isNil

/-- The function that the operand is known to be. -/
def callable? (o : Operand) : Option Callable :=
  o.value.bind Value.callable?

/-- The most that is known of the operand's type. -/
def limitType (o : Operand) : Ty :=
  match o.value with
  | some v => if v.isNil then o.static else v.type
  | none => o.static

/-- Code that reads the operand from its position. -/
def read (o : Operand) (position : Nat) : Fragment :=
  .operand position o.limitType

/-- The positions, from `start` on, of the operands without a value. -/
def pendingFrom (start : Nat) : List Operand → List Nat
  | [] => []
  | o :: os => if o.isKnown then pendingFrom (start + 1) os else start :: pendingFrom (start + 1) os

/-- The positions of the operands without a value, in increasing order. -/
def pending (operands : List Operand) : List Nat :=
  pendingFrom 0 operands

theorem mem_pendingFrom {start i : Nat} {operands : List Operand} :
    i ∈ pendingFrom start operands ↔
      start ≤ i ∧ ∃ o, operands[i - start]? = some o ∧ o.isKnown = false := by
  induction operands generalizing start with
  | nil => simp [pendingFrom]
  | cons o os ih =>
    have tail : i ∈ pendingFrom (start + 1) os ↔
        start < i ∧ ∃ p, (o :: os)[i - start]? = some p ∧ p.isKnown = false := by
      rw [ih]
      refine and_congr_right fun h => ?_
      rw [show i - start = (i - (start + 1)) + 1 by omega, List.getElem?_cons_succ]
    rw [pendingFrom]
    split
    next h =>
      rw [tail]
      constructor
      · rintro ⟨hs, hp⟩
        exact ⟨by omega, hp⟩
      · rintro ⟨hs, p, hp, hk⟩
        refine ⟨?_, p, hp, hk⟩
        rcases Nat.lt_or_eq_of_le hs with hlt | rfl
        · exact hlt
        · simp at hp
          simp_all
    next h =>
      rw [List.mem_cons, tail]
      constructor
      · rintro (rfl | ⟨hs, hp⟩)
        · exact ⟨Nat.le_refl _, o, by simp, by simpa using h⟩
        · exact ⟨by omega, hp⟩
      · rintro ⟨hs, hp⟩
        rcases Nat.lt_or_eq_of_le hs with hlt | rfl
        · exact .inr ⟨hlt, hp⟩
        · exact .inl rfl

/-- A position is pending just if the operand there has no value. -/
theorem mem_pending {i : Nat} {operands : List Operand} :
    i ∈ pending operands ↔ ∃ o, operands[i]? = some o ∧ o.isKnown = false := by
  simp [pending, mem_pendingFrom]

/-- No position is pending just if all operands have values. -/
theorem pending_eq_nil_iff {operands : List Operand} :
    pending operands = [] ↔ ∀ o ∈ operands, o.isKnown = true := by
  rw [List.eq_nil_iff_forall_not_mem]
  constructor
  · intro h o ho
    obtain ⟨i, hi⟩ := List.getElem?_of_mem ho
    cases hk : o.isKnown with
    | true => rfl
    | false => exact absurd (mem_pending.mpr ⟨o, hi, hk⟩) (h i)
  · intro h i hi
    obtain ⟨o, ho, hk⟩ := mem_pending.mp hi
    rw [h o (List.mem_of_getElem? ho)] at hk
    cases hk

theorem pairwise_pendingFrom (start : Nat) (operands : List Operand) :
    (pendingFrom start operands).Pairwise (· < ·) := by
  induction operands generalizing start with
  | nil => exact List.Pairwise.nil
  | cons o os ih =>
    rw [pendingFrom]
    split
    next => exact ih (start + 1)
    next => exact List.pairwise_cons.mpr ⟨fun i hi => (mem_pendingFrom.mp hi).1, ih (start + 1)⟩

/-- The pending positions are in increasing order. -/
theorem pairwise_pending (operands : List Operand) : (pending operands).Pairwise (· < ·) :=
  pairwise_pendingFrom 0 operands

/-- Operands that are made of values have them. -/
theorem isKnown_of_mem_map_known (values : List Value) :
    ∀ o ∈ values.map known, o.isKnown = true :=
  List.forall_mem_map.mpr fun _ _ => rfl

@[simp] theorem pending_known (values : List Value) : pending (values.map known) = [] :=
  pending_eq_nil_iff.mpr (isKnown_of_mem_map_known values)

end Operand

end Dispatch
