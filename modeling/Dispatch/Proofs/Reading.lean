import Dispatch.Binding.Verdict
import Dispatch.Proofs.Soundness

/-!
# What a coerced operand lets through

A binder that knows an operand may read it and coerce what it reads, and trusts the guard of the
rule with the rest: under the simplest guard on the operand there is a value at its position, which
is nil or of the operand's limit type (`Guard.read_of_simple`). So where a coercion to the limit
type checks nothing, the guard has checked already.

But for nil the limit type is the type through which it is seen, and of nil the guard checks nothing
more. Nil that is seen through a type of truth values or numbers is let through to a slot of that
very type, which does not take it (`Operand.NilSlips`). Apart from this, and from the nil that a
coercion to `void` puts in the place of any value, a coerced read never produces what the type
coerced to does not take (`coerced_read_safe_iff`).

In the runtime: `OperandDescriptor` (`limit_type`, `fragment`), `Fragment.coerce` and
`Guard.simple`.
-/

namespace Dispatch

variable {σ : Type}

/-- What is read under the simplest guard on an operand: nil for nil, and otherwise a value of the
operand's limit type. -/
theorem Guard.read_of_simple {i : Nat} {o : Operand} {operands : List Value}
    (h : (Guard.simple i o).check operands = true) :
    ∃ v, operands[i]? = some v ∧ v.isNil = o.isNil ∧
      (o.isNil = false → (v.type == o.limitType) = true) := by
  have hpasses : (Check.of i o).passes operands = true := by
    rw [Guard.check, Guard.simple, Guard.checks, List.all_cons, Bool.and_eq_true] at h
    exact h.1
  rw [Check.passes, Option.any_eq_true] at hpasses
  obtain ⟨v, hv, htest⟩ := hpasses
  refine ⟨v, hv, ?_⟩
  unfold Check.of at htest
  cases hnil : o.isNil with
  | true =>
    rw [hnil, if_pos rfl] at htest
    exact ⟨htest, fun h => absurd h (by decide)⟩
  | false =>
    rw [hnil, if_neg (by decide), Test.passes, Bool.and_eq_true, Bool.not_eq_true'] at htest
    exact ⟨htest.1, fun _ => htest.2⟩

/-- A slot takes the values of its exact type. -/
theorem Ty.accepts_of_beq_type {t : Ty} {v : Value} (h : (v.type == t) = true) :
    t.accepts v = true := by
  unfold accepts
  split
  next => rfl
  next hobject =>
    split
    next hnil =>
      -- nil is an object
      rw [Value.eq_nil_of_isNil hnil] at h
      exact absurd (BEq.symm h) hobject
    next => exact h

namespace Operand

variable {o : Operand} {t : Ty} {v : Value}

/-- A coercion of the operand to `t` produces nil although `t` does not take it: nil is seen through
`t` itself, or it takes the place of a value on its way into another `void` slot. -/
def NilSlips (o : Operand) (t : Ty) : Prop :=
  t.accepts .nil = false ∧
    (o.isNil = true ∧ (o.static == t) = true ∨ (o.limitType == t) = false ∧ t.isVoid = true)

theorem limitType_of_isNil (h : o.isNil = true) : o.limitType = o.static := by
  unfold isNil at h
  unfold limitType
  cases hv : o.value with
  | none => rfl
  | some v =>
    rw [hv, Option.any_some] at h
    exact if_pos h

/-- Into a slot of a type with truth values or numbers only if it is built in, nil slips just if it
is seen through that type. -/
theorem nilSlips_iff_of_regular (h : t.Regular) :
    o.NilSlips t ↔ t.accepts .nil = false ∧ o.isNil = true ∧ (o.static == t) = true := by
  refine and_congr_right fun haccepts => or_iff_left fun ⟨_, hvoid⟩ => ?_
  rw [Ty.accepts_nil (h.isReference_of_isVoid hvoid)] at haccepts
  exact Bool.noConfusion haccepts

/-- What passes a coercion of an operand's value is taken, unless nil slips. -/
theorem pass_safe_iff (hnil : v.isNil = o.isNil)
    (htype : o.isNil = false → (v.type == o.limitType) = true) :
    (∀ w, o.limitType.pass t v = .ok w → t.accepts w = true) ↔ ¬ o.NilSlips t := by
  simp only [Ty.pass_eq_ok_iff]
  by_cases hvoid : (o.limitType == t) = false ∧ t.isVoid = true
  · -- nil passes, whatever the value is
    simp [NilSlips, hvoid]
  · -- the value passes, compared with the type or not
    have hpassed : (∀ w, (if (o.limitType == t) = false ∧ t.isVoid = true then w = .nil
          else w = v ∧ ((o.limitType == t) = true ∨ t.accepts v = true)) → t.accepts w = true) ↔
        ((o.limitType == t) = true → t.accepts v = true) := by
      simp only [if_neg hvoid]
      constructor
      · intro h hsame
        exact h v ⟨rfl, .inl hsame⟩
      · rintro h w ⟨rfl, hsame | htaken⟩
        · exact h hsame
        · exact htaken
    rw [hpassed, NilSlips, or_iff_left hvoid]
    cases ho : o.isNil with
    | true =>
      rw [Value.eq_nil_of_isNil (hnil.trans ho), limitType_of_isNil ho]
      cases t.accepts .nil <;> simp
    | false =>
      refine iff_of_true (fun hsame => ?_) fun h => absurd h.2.1 (by decide)
      exact Ty.accepts_of_beq_type (BEq.trans (htype ho) hsame)

end Operand

section Coercion

variable {call : Body → List Value → Run σ Value} {operands : List Value} {i : Nat} {o : Operand}

/-- Reading an operand does nothing but answer with the value at its position. -/
theorem Fragment.exec_read {v : Value} (hv : operands[i]? = some v) (s : σ) :
    ((o.read i).evaluate call operands).exec s = (.ok (.ok v), s) := by
  rw [Operand.read, evaluate, hv]
  rfl

/-- Where the value to store as a member is handed back as it is read for having the type of the
member, it is handed back coerced: the coercion checks nothing there. -/
theorem Operation.converted_eq_coerce (resolver : Resolver σ) {t : Ty}
    (h : (o.limitType == t) = true) :
    converted resolver o t = pure (.ok ((o.read 1).coerce t)) := by
  have hsame : ((o.read 1).type == t) = true := h
  rw [Fragment.coerce_of_beq hsame]
  exact if_pos (by rw [hsame, Bool.or_true])

/-- Under the simplest guard on an operand, a read of it that is coerced to `t` does nothing but end
in one way whatever the state is, and what it produces `t` takes, unless nil slips: then nil is what
it produces. -/
theorem Fragment.coerced_read_safe_iff (call : Body → List Value → Run σ Value)
    (hguard : (Guard.simple i o).check operands = true) (t : Ty) :
    ∃ outcome, (∀ s, (((o.read i).coerce t).evaluate call operands).exec s = (.ok outcome, s)) ∧
      ((∀ v, outcome = .ok v → t.accepts v = true) ↔ ¬ o.NilSlips t) ∧
      (o.NilSlips t → outcome = .ok .nil) := by
  obtain ⟨v, hv, hnil, htype⟩ := Guard.read_of_simple hguard
  refine ⟨o.limitType.pass t v, fun s => ?_, Operand.pass_safe_iff hnil htype, fun hslips => ?_⟩
  · rw [exec_coerce, exec_read hv s]
    rfl
  · rw [Ty.pass_eq_ok_iff]
    rcases hslips.2 with ⟨ho, hsame⟩ | hvoid
    · rw [Operand.limitType_of_isNil ho, Value.eq_nil_of_isNil (hnil.trans ho)]
      simp [hsame]
    · rw [if_pos hvoid]

/-- A read of an integer as an integer is safe: there is no nil to slip. -/
theorem Fragment.coerced_read_safe_integer :
    (Guard.simple 0 (.known (.integer 5))).check [.integer 7] = true ∧
      ∃ outcome, (∀ s : Unit, ((((Operand.known (.integer 5)).read 0).coerce .integer).evaluate
          (fun _ args => pure (Value.first args)) [.integer 7]).exec s = (.ok outcome, s)) ∧
        ∀ v, outcome = .ok v → Ty.integer.accepts v = true := by
  have hguard : (Guard.simple 0 (.known (.integer 5))).check [.integer 7] = true := by decide
  obtain ⟨outcome, hexec, hsafe, -⟩ := coerced_read_safe_iff
    (fun _ args => pure (Value.first args) : Body → List Value → Run Unit Value) hguard .integer
  refine ⟨hguard, outcome, hexec, hsafe.mpr fun hslips => ?_⟩
  have hregular : Ty.integer.Regular := Ty.Regular.of_mem_builtins (by simp [Ty.builtins])
  exact absurd ((Operand.nilSlips_iff_of_regular hregular).mp hslips).2.1 (by decide)

/-- Nil that is seen as an integer is produced by a read that is coerced to integers, and it is
handed back as it is for a member of integers, although no slot of integers takes nil. -/
theorem Fragment.not_safe_of_nil_as_integer :
    let o := Operand.knownAs .nil .integer
    o.isKnown = true ∧ (Guard.simple 0 o).check [.nil] = true ∧
      (((o.read 0).coerce .integer).evaluate (fun _ args => pure (Value.first args))
        [.nil]).exec () = (.ok (.ok .nil), ()) ∧
      (∀ resolver : Resolver Unit,
        Operation.converted resolver o .integer = pure (.ok (o.read 1))) ∧
      Ty.integer.accepts .nil = false := by
  refine ⟨by decide, by decide, rfl, fun resolver => ?_, by decide⟩
  exact Operation.converted_eq_coerce resolver (by decide)

end Coercion

end Dispatch
