import Dispatch.Proofs.Agreement
import Dispatch.Proofs.View

/-!
# The guards of verdicts

A resolver may answer whatever it likes, and change the state while it does. As long as it answers
(`Resolver.Answers`), the rule of the verdict carries the guard that goes with the shape of the
operands, be it a success or a complaint (`judge_yields`). Setting members and calling functions are
left out: their guards depend on what was answered and on the function.

In the runtime: the guards in `bind` of the binders.
-/

namespace Dispatch

/-- A resolver that answers all that it is asked, and meanwhile changes the state along `R` only. -/
structure Resolver.Answers {σ : Type} (R : σ → σ → Prop) (r : Resolver σ) : Prop where
  getMember : ∀ t m, Act.Yields (fun _ => True) R (r.getMember t m)
  getIndex : ∀ target indexes, Act.Yields (fun _ => True) R (r.getIndex target indexes)
  setIndex : ∀ target indexes value,
    Act.Yields (fun _ => True) R (r.setIndex target indexes value)
  invokeMember : ∀ identity call target args m,
    Act.Yields (fun _ => True) R (r.invokeMember identity call target args m)
  binary : ∀ operator left right, Act.Yields (fun _ => True) R (r.binary operator left right)
  unary : ∀ operator operand, Act.Yields (fun _ => True) R (r.unary operator operand)
  convert : ∀ source t, Act.Yields (fun _ => True) R (r.convert source t)

/-- A resolver that goes by views answers and changes nothing. -/
theorem Resolver.ByView.answers {σ : Type} {R : σ → σ → Prop} {r : Resolver σ} (h : r.ByView)
    (hrefl : ∀ s, R s s) : r.Answers R where
  getMember t m := by
    obtain ⟨f, hf⟩ := h.getMember
    exact hf t m ▸ Act.yields_pure hrefl trivial
  getIndex target indexes := by
    obtain ⟨f, hf⟩ := h.getIndex
    exact hf target indexes ▸ Act.yields_pure hrefl trivial
  setIndex target indexes value := by
    obtain ⟨f, hf⟩ := h.setIndex
    exact hf target indexes value ▸ Act.yields_pure hrefl trivial
  invokeMember identity call target args m := by
    obtain ⟨f, hf⟩ := h.invokeMember
    exact hf identity call target args m ▸ Act.yields_pure hrefl trivial
  binary operator left right := by
    obtain ⟨f, hf⟩ := h.binary
    exact hf operator left right ▸ Act.yields_pure hrefl trivial
  unary operator operand := by
    obtain ⟨f, hf⟩ := h.unary
    exact hf operator operand ▸ Act.yields_pure hrefl trivial
  convert source t := by
    obtain ⟨f, hf⟩ := h.convert
    exact hf source t ▸ Act.yields_pure hrefl trivial

namespace Operation

variable {σ : Type} {s : Scope σ} {op : Operation} {R : σ → σ → Prop}

/-- The verdict on nil as the target is guarded by that. -/
theorem guard_of_onNil {empty : Value} {target : Operand} {verdict : Verdict}
    (h : op.onNil empty target = some verdict) : (verdict.rule none).guard = .isNil 0 := by
  cases op <;> simp only [onNil, Option.some.injEq, reduceCtorEq] at h <;> subst h <;> rfl

theorem guard_settle {guard : Guard} {shape : Fragment → Fragment} {answer : Resolution} :
    ((op.settle guard shape answer).rule none).guard = guard := by
  cases answer <;> rfl

/-- The verdict of a resolver that answers is guarded by the operands it was asked about. -/
theorem resolve_yields (hrefl : ∀ e, R e e) (hr : s.resolver.Answers R)
    (hset : op.kind ≠ .setMember) (hinvoke : op.kind ≠ .invoke) {target : Operand}
    {rest : List Operand} (hn : rest.length + 1 = op.operandCount)
    (hcall : op.kind = .invokeMember → target.callable? = none) :
    Act.Yields (fun verdict => (verdict.rule none).guard = Guard.ofOperands (target :: rest)) R
      (op.resolve s target rest) := by
  -- a row of one operand is its target
  have hone : op.operandCount = 1 → rest = [] := fun h =>
    List.length_eq_zero_iff.mp (by omega)
  cases op with
  | getMember m =>
    rw [hone rfl]
    refine Act.yields_bind_pure (hr.getMember _ _) fun answer => ?_
    cases answer <;> exact ⟨_, rfl, rfl⟩
  | setMember m => exact absurd rfl hset
  | getIndex call =>
    exact Act.yields_bind_pure (hr.getIndex _ _) fun answer => ⟨_, rfl, guard_settle⟩
  | setIndex call =>
    cases rest with
    | nil => exact absurd hn (by rw [operandCount, List.length_nil]; omega)
    | cons index more =>
      exact Act.yields_bind_pure (hr.setIndex _ _ _) fun answer => ⟨_, rfl, guard_settle⟩
  | invoke call => exact absurd rfl hinvoke
  | invokeMember m call =>
    simp only [resolve, hcall rfl, Option.isSome_none, Bool.false_eq_true, if_false]
    refine Act.yields_bind_pure (hr.invokeMember _ _ _ _ _) fun answer => ?_
    cases answer with
    | error reason => exact ⟨_, rfl, rfl⟩
    | ok found => cases found <;> exact ⟨_, rfl, rfl⟩
  | binary request =>
    cases rest with
    | nil => exact absurd hn (by simp [operandCount])
    | cons right more =>
      exact Act.yields_bind_pure (hr.binary _ _ _) fun answer => ⟨_, rfl, guard_settle⟩
  | unary operator =>
    rw [hone rfl]
    exact Act.yields_bind_pure (hr.unary _ _) fun answer => ⟨_, rfl, guard_settle⟩
  | convert t =>
    rw [hone rfl]
    simp only [resolve]
    split
    next => exact Act.yields_pure hrefl rfl
    next => exact Act.yields_bind_pure (hr.convert _ _) fun answer => ⟨_, rfl, guard_settle⟩

/-- With a resolver that answers, the rule of the verdict is guarded by the shape of the
operands. -/
theorem judge_yields (hrefl : ∀ e, R e e) (hr : s.resolver.Answers R)
    (hset : op.kind ≠ .setMember) (hinvoke : op.kind ≠ .invoke) {v : List Value}
    (hn : v.length = op.operandCount)
    (hcall : op.kind = .invokeMember → ∀ x, v.head? = some x → x.callable? = none) :
    Act.Yields (fun verdict => (verdict.rule none).guard = op.guardOn v) R
      (op.judge s (v.map .known)) := by
  obtain ⟨x, rest, rfl⟩ := List.exists_cons_of_length_pos (hn ▸ op.operandCount_pos)
  rw [List.map_cons, judge, Operand.isNil_known]
  have hresolve : Act.Yields
      (fun verdict => (verdict.rule none).guard = Guard.ofOperands (.known x :: rest.map .known)) R
      (op.resolve s (.known x) (rest.map .known)) :=
    resolve_yields hrefl hr hset hinvoke (by rw [List.length_map]; exact hn)
      fun h => hcall h x rfl
  cases hnil : (if x.isNil then op.onNil s.emptyResult (.known x) else none) with
  | some verdict =>
    -- nil settles the operation, and the guard says no more
    rw [Option.ite_none_right_eq_some] at hnil
    obtain ⟨hx, hverdict⟩ := hnil
    have hbinary : op.kind ≠ .binary := by
      intro h
      rw [onNil_eq_none_iff.mpr h] at hverdict
      exact Option.some_ne_none _ hverdict.symm
    refine Act.yields_pure hrefl ?_
    rw [guardOn, if_pos (collapses_cons.mpr ⟨hbinary, hx⟩), guard_of_onNil hverdict]
  | none =>
    have hcollapse : ¬ op.collapses (x :: rest) = true := by
      intro h
      obtain ⟨hbinary, hx⟩ := collapses_cons.mp h
      rw [if_pos hx] at hnil
      exact hbinary (onNil_eq_none_iff.mp hnil)
    rw [guardOn, if_neg hcollapse, List.map_cons]
    exact hresolve

end Operation

end Dispatch
