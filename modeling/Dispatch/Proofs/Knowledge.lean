import Dispatch.Proofs.Snapshot

/-!
# Guards on what is known

A guard can be asked about values and about what is known of operands, some of which have no value
yet. The two questions are answered alike. On operands a guard holds just if all that it checks is
known and it holds on every row of values that the operands may turn out to be (`Operand.Fits`). So
nothing that is learned later makes a guard false that has held (`Operand.Learned`), and the types
through which operands are seen make no difference.

Guards are compared by the numbers of types and by which functions they are about. That is as much
as a guard looks at: guards that compare equal hold on the same values and on the same operands.

In the runtime: `Guard.check` and `holds_for`, `Check.test`, and `eq` of `Check`.
-/

namespace Dispatch

/-- The value of the operand at a position, if there is such an operand and it has one. -/
def Operand.valueAt? (operands : List Operand) (i : Nat) : Option Value :=
  operands[i]?.bind Operand.value

/-- A row of values that the operands may turn out to be: one for each, and the value of the operand
where it has one. -/
def Operand.Fits (operands : List Operand) (values : List Value) : Prop :=
  values.length = operands.length ∧ ∀ i v, valueAt? operands i = some v → values[i]? = some v

/-- The same number of operands, with the values that they had and perhaps more of them. -/
def Operand.Learned (before after : List Operand) : Prop :=
  after.length = before.length ∧ ∀ i v, valueAt? before i = some v → valueAt? after i = some v

variable {operands others : List Operand} {values : List Value} {c : Check} {g h : Guard}

/-- Operands may always turn out to be something: where there is no value yet, nil. -/
theorem Operand.exists_fits (operands : List Operand) : ∃ values, Fits operands values := by
  refine ⟨operands.map fun o => o.value.getD .nil, List.length_map .., fun i v hv => ?_⟩
  obtain ⟨o, ho, hvalue⟩ := Option.bind_eq_some_iff.mp hv
  rw [List.getElem?_map, ho, Option.map_some, hvalue, Option.getD_some]

/-- A position has a value just if there is a known operand. -/
theorem Operand.valueAt?_isSome {i : Nat} :
    (∃ v, valueAt? operands i = some v) ↔ ∃ o, operands[i]? = some o ∧ o.isKnown = true := by
  simp only [valueAt?, Option.bind_eq_some_iff, isKnown, Option.isSome_iff_exists]
  constructor
  · rintro ⟨v, o, ho, hv⟩
    exact ⟨o, ho, v, hv⟩
  · rintro ⟨o, ho, v, hv⟩
    exact ⟨v, o, ho, hv⟩

/-- Operands with the same values have them in the same places. -/
theorem Operand.valueAt?_eq_of_values (h : others.map value = operands.map value) (i : Nat) :
    valueAt? others i = valueAt? operands i := by
  have hat : ∀ os : List Operand, valueAt? os i = (os.map value)[i]?.join := by
    intro os
    rw [List.getElem?_map, valueAt?]
    cases os[i]? <;> rfl
  rw [hat, hat, h]

theorem Check.holds_eq (c : Check) (operands : List Operand) :
    c.holds operands = (Operand.valueAt? operands c.operand).any c.test.passes := rfl

theorem Check.holds_iff :
    c.holds operands = true ↔
      ∃ v, Operand.valueAt? operands c.operand = some v ∧ c.test.passes v = true := by
  rw [Check.holds_eq, Option.any_eq_true]

/-- A check that passes on what is known passes on whatever the operands turn out to be. -/
theorem Check.passes_of_fits (hc : c.holds operands = true) (hfits : Operand.Fits operands values) :
    c.passes values = true := by
  obtain ⟨v, hv, htest⟩ := Check.holds_iff.mp hc
  rw [Check.passes, hfits.2 _ v hv]
  exact htest

/-- Where the operand of a check is known, the check passes on it if it passes on some row of values
that the operands may turn out to be. -/
theorem Check.holds_of_passes (hknown : ∃ v, Operand.valueAt? operands c.operand = some v)
    (hfits : Operand.Fits operands values) (hc : c.passes values = true) :
    c.holds operands = true := by
  obtain ⟨v, hv⟩ := hknown
  rw [Check.passes, hfits.2 _ v hv] at hc
  exact Check.holds_iff.mpr ⟨v, hv, hc⟩

namespace Guard

/-- A guard holds on operands just if all that it checks is known, and it holds on whatever they
turn out to be. -/
theorem holds_iff_forall_fits :
    g.holds operands = true ↔
      (∀ c ∈ g.checks, ∃ o, operands[c.operand]? = some o ∧ o.isKnown = true) ∧
        ∀ values, Operand.Fits operands values → g.check values = true := by
  simp only [holds, check, List.all_eq_true]
  constructor
  · intro hholds
    refine ⟨fun c hc => ?_, fun values hfits c hc => Check.passes_of_fits (hholds c hc) hfits⟩
    obtain ⟨v, hv, -⟩ := Check.holds_iff.mp (hholds c hc)
    exact Operand.valueAt?_isSome.mp ⟨v, hv⟩
  · rintro ⟨hknown, hpasses⟩ c hc
    obtain ⟨values, hfits⟩ := Operand.exists_fits operands
    exact Check.holds_of_passes (Operand.valueAt?_isSome.mpr (hknown c hc)) hfits
      (hpasses values hfits c hc)

/-- A guard that holds goes on to hold when more is learned. -/
theorem holds_of_learned (hlearned : Operand.Learned operands others)
    (hholds : g.holds operands = true) : g.holds others = true := by
  rw [holds, List.all_eq_true] at hholds ⊢
  intro c hc
  obtain ⟨v, hv, htest⟩ := Check.holds_iff.mp (hholds c hc)
  exact Check.holds_iff.mpr ⟨v, hlearned.2 _ v hv, htest⟩

/-- A guard looks at nothing of the operands but their values. -/
theorem holds_congr (hvalues : others.map Operand.value = operands.map Operand.value) :
    g.holds others = g.holds operands := by
  simp only [holds, Check.holds_eq, Operand.valueAt?_eq_of_values hvalues]

/-- Equal guards hold on the same operands, whatever is known of them. -/
theorem holds_eq_of_beq (hgh : (g == h) = true) (operands : List Operand) :
    g.holds operands = h.holds operands :=
  all_eq_of_beq (fun hcd => Check.holds_eq_of_beq hcd operands) (checks_beq_of_beq hgh)

/-- What a guard says of operands agrees with what it says of values. It holds on operands just if
all that it checks is known and it holds on every row of values that they may turn out to be, so
where all of them have values, just if it holds on these. It goes on to hold when more of them get
values, and static types make no difference to it. Guards that compare equal hold on the same rows
of values and on the same operands. -/
theorem holds_agrees_with_check (g : Guard) (operands : List Operand) :
    (g.holds operands = true ↔
      (∀ c ∈ g.checks, ∃ o, operands[c.operand]? = some o ∧ o.isKnown = true) ∧
        ∀ values, Operand.Fits operands values → g.check values = true) ∧
    (∀ values : List Value, operands.map Operand.value = values.map some →
      g.holds operands = g.check values) ∧
    (∀ later, Operand.Learned operands later → g.holds operands = true →
      g.holds later = true) ∧
    (∀ others : List Operand, others.map Operand.value = operands.map Operand.value →
      g.holds others = g.holds operands) ∧
    ∀ h : Guard, (g == h) = true →
      (∀ values, g.check values = h.check values) ∧ ∀ os, g.holds os = h.holds os :=
  ⟨holds_iff_forall_fits, fun _ hvalues => holds_eq_check hvalues g,
    fun _ hlearned => holds_of_learned hlearned, fun _ hvalues => holds_congr hvalues,
    fun _ hgh => ⟨check_eq_of_beq hgh, holds_eq_of_beq hgh⟩⟩

/-- A guard on one of two operands holds before the other is known, and so on a row of values and
when the other becomes known, while the guard on both does not hold yet. -/
theorem typeIs_holds_on_known_part :
    let before : List Operand := [.known (.integer 5), .unknown .text]
    let later : List Operand := [.known (.integer 5), .knownAs .nil .text]
    (typeIs 0 .integer).check [.integer 5, .nil] = true ∧ (typeIs 0 .integer).holds later = true ∧
      ((typeIs 0 .integer).merge (isNil 1)).holds before = false := by
  intro before later
  have hagrees := holds_agrees_with_check (typeIs 0 .integer) before
  have hknown : ∀ i v, Operand.valueAt? before i = some v → i = 0 ∧ v = .integer 5 := by
    intro i v hv
    match i with
    | 0 => exact ⟨rfl, (Option.some.inj hv).symm⟩
    | 1 => cases hv
    | _ + 2 => cases hv
  have hfits : Operand.Fits before [.integer 5, .nil] := by
    refine ⟨rfl, fun i v hv => ?_⟩
    obtain ⟨rfl, rfl⟩ := hknown i v hv
    rfl
  have hlearned : Operand.Learned before later := by
    refine ⟨rfl, fun i v hv => ?_⟩
    obtain ⟨rfl, rfl⟩ := hknown i v hv
    rfl
  refine ⟨(hagrees.1.mp rfl).2 _ hfits, hagrees.2.2.1 later hlearned rfl, ?_⟩
  -- the second operand of the snapshot is not known
  rw [Bool.eq_false_iff]
  intro hboth
  obtain ⟨o, ho, hunknown⟩ :=
    ((holds_agrees_with_check ((typeIs 0 .integer).merge (isNil 1)) before).1.mp hboth).1
      ⟨1, .isNil⟩ (List.mem_cons_of_mem _ (List.mem_singleton_self _))
  obtain rfl : Operand.unknown .text = o := Option.some.inj ho
  cases hunknown

end Guard

end Dispatch
