import Dispatch.Proofs.Calling
import Dispatch.Proofs.Judgement

/-!
# Guards hold where they were made

A rule whose guard did not hold on the very operands it was bound for would never be kept, and its
call site would bind for ever. That does not happen: whatever way a verdict comes about, the guard
of its rule holds on the operands (`check_guard_of_canBe`), with their values and static types as
they may be. So a binder answers with the rule to fall back on, or with one that may be used again
at once (`guard_holds_on_snapshot`).

In the runtime: `bind` of the nine binders, and `Guard.check` and `holds_for` on their rules.
-/

namespace Dispatch

/-- The simplest check on an operand with a value does not depend on its static type. -/
theorem Check.of_value {o : Operand} {v : Value} (h : o.value = some v) (i : Nat) :
    Check.of i o = .of i (.known v) := by
  have hnil : o.isNil = v.isNil := by
    rw [Operand.isNil, h]
    rfl
  have htype : o.limitType = if v.isNil then o.static else v.type := by
    rw [Operand.limitType, h]
  rw [Check.of, Check.of, hnil, htype, Operand.isNil_known, Operand.limitType_known]
  cases v.isNil <;> rfl

section Values

variable {operands : List Operand} {values : List Value}
  (hvalues : operands.map Operand.value = values.map some)
include hvalues

theorem Operand.getElem?_values (i : Nat) :
    operands[i]?.map Operand.value = values[i]?.map some := by
  rw [← List.getElem?_map, hvalues, List.getElem?_map]

theorem Operand.pending_of_values : Operand.pending operands = [] := by
  rw [List.eq_nil_iff_forall_not_mem]
  intro i hi
  obtain ⟨o, ho, hunknown⟩ := Operand.mem_pending.mp hi
  have hvalue := Operand.getElem?_values hvalues i
  rw [ho, Option.map_some] at hvalue
  obtain ⟨v, -, hv⟩ := Option.map_eq_some_iff.mp hvalue.symm
  rw [Operand.isKnown, ← hv] at hunknown
  exact absurd hunknown.symm Bool.false_ne_true

namespace Guard

/-- On operands with values a guard holds just if it holds on the values. -/
theorem holds_eq_check (g : Guard) : g.holds operands = g.check values := by
  have hcheck : ∀ c : Check, c.holds operands = c.passes values := by
    intro c
    have hvalue := Operand.getElem?_values hvalues c.operand
    rw [Check.holds, Check.passes]
    cases ho : operands[c.operand]? with
    | none =>
      rw [ho] at hvalue
      rw [Option.map_eq_none_iff.mp hvalue.symm]
      rfl
    | some o =>
      rw [ho, Option.map_some] at hvalue
      obtain ⟨v, hv, hsome⟩ := Option.map_eq_some_iff.mp hvalue.symm
      rw [hv, Option.bind_some, ← hsome]
  simp only [holds, check, hcheck]

/-- The guard on the first operands of a row holds on the values of the row. -/
theorem check_ofOperands_of_isPrefix {os : List Operand} (h : os <+: operands) :
    (ofOperands os).check values = true := by
  rw [check_ofOperands]
  intro i o ho
  have hrow : operands[i]? = some o := by
    obtain ⟨tail, rfl⟩ := h
    rw [List.getElem?_append_left (List.getElem?_eq_some_iff.mp ho).1, ho]
  have hvalue := Operand.getElem?_values hvalues i
  rw [hrow, Option.map_some] at hvalue
  obtain ⟨v, hv, hsome⟩ := Option.map_eq_some_iff.mp hvalue.symm
  rw [Check.of_value hsome.symm, Check.passes_of_known hv]

end Guard

end Values

namespace Operation

variable {σ : Type} {s : Scope σ} {op : Operation} {target : Operand} {rest : List Operand}
  {values : List Value}

theorem value_of_callable? {c : Callable} (h : target.callable? = some c) :
    target.value = some (.callable c) := by
  obtain ⟨v, hv, hc⟩ := Option.bind_eq_some_iff.mp h
  rw [hv, Value.callable?_eq_some.mp hc]

/-- The guard on all operands holds on them, and on the function that is called. -/
theorem check_fullGuard (hvalues : (target :: rest).map Operand.value = values.map some) :
    (op.fullGuard target rest).check values = true := by
  have hall : (Guard.ofOperands (target :: rest)).check values = true :=
    Guard.check_ofOperands_of_isPrefix hvalues (List.prefix_refl _)
  unfold fullGuard
  split
  next => exact hall
  next c hc =>
    cases values with
    | nil => exact absurd hvalues (List.cons_ne_nil _ _)
    | cons v values =>
      rw [List.map_cons, List.map_cons, List.cons.injEq,
        value_of_callable? (callable?_of_callee? hc)] at hvalues
      obtain rfl := Option.some.inj hvalues.1
      rw [Guard.check_merge, hall, Callable.check_guard]
      rfl

/-- Whatever way a verdict comes about, the guard of its rule holds on the operands. -/
theorem check_guard_of_canBe (hvalues : (target :: rest).map Operand.value = values.map some)
    {verdict : Verdict} (h : op.CanBe s target rest verdict) :
    (verdict.rule none).guard.check values = true := by
  cases h with
  | settled hnil hverdict =>
    rw [guard_of_onNil hverdict]
    cases values with
    | nil => exact absurd hvalues (List.cons_ne_nil _ _)
    | cons v values =>
      rw [List.map_cons, List.map_cons, List.cons.injEq] at hvalues
      rw [Operand.isNil, hvalues.1] at hnil
      rw [check_isNil_cons]
      exact hnil
  | unchanged => exact check_fullGuard hvalues
  | resolved => exact check_fullGuard hvalues
  | absent => exact check_fullGuard hvalues
  | refused hguard =>
    rcases hguard with rfl | rfl
    · exact Guard.check_ofOperands_of_isPrefix hvalues (List.cons_prefix_cons.mpr
        ⟨rfl, List.nil_prefix⟩)
    · exact check_fullGuard hvalues

end Operation

/-- A resolver that answers all that it is asked, as long as the conversions that it is handed
answer. -/
structure Resolver.Responds {σ : Type} (r : Resolver σ) : Prop extends
    r.Answers (fun _ _ => True) where
  setMember : ∀ t m converted, (∀ u, Act.Yields (fun _ => True) (fun _ _ => True) (converted u)) →
    Act.Yields (fun _ => True) (fun _ _ => True) (r.setMember t m converted)
  bindParameters : ∀ formal call args invoke,
    Act.Yields (fun _ => True) (fun _ _ => True) (r.bindParameters formal call args invoke)

namespace Operation

variable {σ : Type} {s : Scope σ} {op : Operation} {target : Operand} {rest : List Operand}

theorem converted_responds (hr : s.resolver.Responds) (value : Operand) (t : Ty) :
    Act.Yields (fun _ => True) (fun _ _ => True) (converted s.resolver value t) := by
  unfold converted
  dsimp only
  split
  next => exact Act.yields_pure (fun _ => trivial) trivial
  next => exact hr.convert _ _

theorem judgeCall_responds (hr : s.resolver.Responds) (call : CallShape) :
    Act.Yields (fun _ => True) (fun _ _ => True) (op.judgeCall s call target rest) := by
  unfold judgeCall
  split
  next => exact Act.yields_pure (fun _ => trivial) trivial
  next => exact Act.yields_bind_pure (hr.bindParameters _ _ _ _) fun _ => ⟨_, rfl, trivial⟩

/-- With a resolver that answers, every operation on operands with values comes to a verdict. -/
theorem judge_responds (hr : s.resolver.Responds) (hn : rest.length + 1 = op.operandCount) :
    Act.Yields (fun _ => True) (fun _ _ => True) (op.judge s (target :: rest)) := by
  have hother : op.kind ≠ .setMember → op.kind ≠ .invoke →
      (op.kind = .invokeMember → target.callable? = none) →
      Act.Yields (fun _ => True) (fun _ _ => True) (op.resolve s target rest) := by
    intro hset hinvoke hcall e
    obtain ⟨verdict, t, h, -, -⟩ :=
      resolve_yields (fun _ => trivial) hr.toAnswers hset hinvoke hn hcall e
    exact ⟨verdict, t, h, trivial, trivial⟩
  rw [judge]
  split
  next => exact Act.yields_pure (fun _ => trivial) trivial
  next =>
    cases op with
    | setMember m =>
      cases rest with
      | nil => exact absurd hn (by simp [operandCount])
      | cons value more =>
        refine Act.yields_bind_pure (hr.setMember _ _ _ (converted_responds hr value))
          fun answer => ?_
        cases answer <;> exact ⟨_, rfl, trivial⟩
    | invoke call => exact judgeCall_responds hr call
    | invokeMember m call =>
      by_cases hc : target.callable?.isSome = true
      · simp only [resolve, if_pos hc]
        exact judgeCall_responds hr call
      · exact hother (by simp [kind]) (by simp [kind]) fun _ =>
          Option.not_isSome_iff_eq_none.mp hc
    | _ => exact hother (by simp [kind]) (by simp [kind]) (by simp [kind])

end Operation

namespace Engine

variable {σ : Type} {host : Host σ} {e : Engine σ} {b : BinderRef} {x : Backdrop}
  {operands : List Operand} {values : List Value}

/-- A row of operands that all have values is bound to a rule: the one to fall back on, or one whose
guard holds on the operands. And if the resolver answers, a rule it is. -/
theorem guard_holds_on_snapshot (host : Host σ) (hx : e.backdrop b = some x)
    (hn : operands.length = x.operation.operandCount)
    (hvalues : operands.map Operand.value = values.map some) (fallback : Option Rule) :
    (∀ binding t, (bind host b operands fallback).exec e = (.ok binding, t) →
      ∃ r, binding = .bound r ∧ (fallback = some r ∨
        r.guard.holds operands = true ∧ r.guard.check values = true)) ∧
    ((host.resolver b.dispatcher).Responds →
      ∃ r t, (bind host b operands fallback).exec e = (.ok (.bound r), t)) := by
  obtain ⟨d, binder, hd, hb, rfl⟩ := backdrop_eq_some.mp hx
  dsimp only at hn
  obtain ⟨target, rest, rfl⟩ :=
    List.exists_cons_of_length_pos (hn ▸ binder.operation.operandCount_pos)
  rw [exec_bind_of_length_eq hd hb hn,
    exec_bindCounted_of_known hd hb (Operand.pending_of_values hvalues)]
  constructor
  · intro binding t h
    split at h
    next verdict u hverdict =>
      cases h
      refine ⟨_, rfl, ?_⟩
      have hcheck : (verdict.rule none).guard.check values = true :=
        Operation.check_guard_of_canBe hvalues (Operation.canBe_of_judge hn ⟨e, u, hverdict⟩)
      have hrule : fallback = some (verdict.rule fallback) ∨
          verdict.rule fallback = verdict.rule none := by
        cases verdict with
        | performed r => exact .inr rfl
        | refused substitute =>
          cases fallback with
          | none => exact .inr rfl
          | some f => exact .inl rfl
      refine hrule.imp_right fun hsame => ?_
      rw [hsame]
      exact ⟨(Guard.holds_eq_check hvalues _).trans hcheck, hcheck⟩
    next => cases h
  · intro hr
    obtain ⟨verdict, t, hverdict, -, -⟩ := Operation.judge_responds
      (s := ⟨host.resolver b.dispatcher, d.types, d.emptyResult⟩) hr hn e
    rw [hverdict]
    exact ⟨_, _, rfl⟩

end Engine

theorem smallResolver_responds {σ : Type} : (smallResolver : Resolver σ).Responds where
  toAnswers := smallResolver_byView.answers fun _ => trivial
  setMember t m converted h := by
    refine Act.yields_bind_pure (h .integer) fun answer => ?_
    cases answer <;> exact ⟨_, rfl, trivial⟩
  bindParameters formal call args invoke := by
    show Act.Yields _ _ (if _ then _ else _)
    split <;> exact Act.yields_pure (fun _ => trivial) trivial

/-- A function is called with nil, both seen through static types. -/
theorem guard_holds_on_snapshot_calling :
    ∃ r t, (Engine.bind smallHost ⟨0, 0⟩
        [.knownAs (.callable short) .function, .knownAs .nil .text] none).exec
        (smallEngine (.invoke (.positional 1)) 4) = (.ok (.bound r), t) ∧
      r.guard.holds [.knownAs (.callable short) .function, .knownAs .nil .text] = true ∧
      r.guard.check [.callable short, .nil] = true := by
  have hvalues : [Operand.knownAs (.callable short) .function, .knownAs .nil .text].map
      Operand.value = [Value.callable short, .nil].map some := rfl
  obtain ⟨hholds, hanswers⟩ := Engine.guard_holds_on_snapshot smallHost
    (e := smallEngine (.invoke (.positional 1)) 4) (b := ⟨0, 0⟩)
    (x := smallBackdrop (.invoke (.positional 1))) rfl rfl hvalues none
  obtain ⟨r, t, h⟩ := hanswers smallResolver_responds
  obtain ⟨r', hr', hguard⟩ := hholds _ t h
  cases hr'
  exact ⟨r, t, h, hguard.resolve_left fun hnone => nomatch hnone⟩

end Dispatch
