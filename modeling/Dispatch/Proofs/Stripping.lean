import Mathlib.Data.List.Forall2
import Dispatch.Proofs.Snapshot

/-!
# Parameters that no caller supplies

What a routine has in front of the parameters that its type declares was bound when the value was
made, and is taken off the list that callers see. It is told by the lengths alone. So what is left
is the end of the routine's list, as long as both lists allow (`Callable.stripped?_eq`), but not
always what the type declares: the routine may have fewer parameters, or as many with other names or
types.

A rule for a call relies on the type and the return type if what is left is what the type declares,
and otherwise on the function itself. What is left is what the type declares just if the routine's
list ends like that (`Callable.formalIsDeclared_iff`), so the two choices fit together.

In the runtime: `formal_parameters` and `callable_guard`.

Main statement: `formal_fits_guard`.
-/

namespace Dispatch

/-- Two parameters with one name, of one type. -/
def Param.Same (p q : Param Ty) : Prop :=
  p.name = q.name ∧ p.type.id = q.type.id

/-- Lists of parameters are compared one by one. -/
theorem Param.list_beq_iff {ps qs : List (Param Ty)} :
    (ps == qs) = true ↔ List.Forall₂ Param.Same ps qs := by
  induction ps generalizing qs with
  | nil => cases qs <;> simp
  | cons p ps ih =>
    cases qs with
    | nil => simp
    | cons q qs =>
      rw [List.cons_beq_cons, Bool.and_eq_true, Param.beq_iff, ih, List.forall₂_cons]
      rfl

/-- The end of a list from a position on, which must not lie behind the end. -/
def endFrom? {α : Type} (l : List α) (i : Nat) : Option (List α) :=
  if i ≤ l.length then some (l.drop i) else none

namespace Callable

/-- The formal list as it is taken from the routine's: of two lists of different lengths, what is
left when the surplus in front is taken off. -/
def stripped? (c : Callable) : Option (List (Param Ty)) :=
  match c.type.signature with
  | some declared =>
    if declared.length ≠ c.params.length then
      endFrom? c.params (c.params.length - declared.length)
    else some c.params
  | none => some c.params

/-- The type declares parameters, and the routine's end with the same ones. -/
def EndsAsDeclared (c : Callable) : Prop :=
  ∃ declared ending, c.type.signature = some declared ∧ ending <:+ c.params ∧
    List.Forall₂ Param.Same declared ending

variable {c : Callable}

/-- There is always something to take, and it is the formal list. -/
theorem stripped?_eq (c : Callable) : c.stripped? = some c.formal := by
  unfold stripped? formal
  cases c.type.signature with
  | none => rfl
  | some declared =>
    dsimp only
    split
    next => exact if_pos (Nat.sub_le _ _)
    next hlen =>
      rw [not_not.mp hlen, Nat.sub_self, List.drop_zero]

/-- What is left is what the type declares just if the routine's parameters end with that. -/
theorem formalIsDeclared_iff : c.formalIsDeclared = true ↔ c.EndsAsDeclared := by
  rw [formalIsDeclared, Option.any_eq_true]
  constructor
  · rintro ⟨declared, hdeclared, hsame⟩
    exact ⟨declared, c.formal, hdeclared, c.formal_isSuffix, Param.list_beq_iff.mp hsame⟩
  · rintro ⟨declared, ending, hdeclared, hending, hsame⟩
    refine ⟨declared, hdeclared, ?_⟩
    -- both are ends of the routine's list, and of one length
    have hlen : ending.length = c.formal.length := by
      rw [length_formal hdeclared, ← hsame.length_eq, Nat.min_eq_left]
      exact hsame.length_eq ▸ hending.length_le
    have hends : ending <:+ c.formal :=
      List.suffix_of_suffix_length_le hending c.formal_isSuffix (Nat.le_of_eq hlen)
    have hformal : ending = c.formal := hends.eq_of_length hlen
    exact Param.list_beq_iff.mpr (hformal ▸ hsame)

theorem guard_of_endsAsDeclared (h : c.EndsAsDeclared) : c.guard = .returns 0 c.returns :=
  if_pos (formalIsDeclared_iff.mpr h)

theorem guard_of_not_endsAsDeclared (h : ¬ c.EndsAsDeclared) : c.guard = .sameCallable 0 c :=
  if_neg fun hformal => h (formalIsDeclared_iff.mp hformal)

end Callable

/-- What a rule depends on beyond the types of the operands is checked behind them. -/
theorem Guard.checks_merge_callable (c : Callable) (operands : List Operand) :
    ((ofOperands operands).merge c.guard).checks =
      operands.mapIdx Check.of ++ c.guard.checks := by
  obtain ⟨test, hguard, hother⟩ : ∃ test, c.guard = one ⟨0, test⟩ ∧
      ∀ i o, ((Check.of i o).test == test) = false := by
    unfold Callable.guard
    split <;>
    · refine ⟨_, rfl, fun i o => ?_⟩
      unfold Check.of
      cases o.isNil <;> rfl
  rw [checks_merge, ofOperands_eq, checks_ofChecks]
  refine firsts_of_distinct [] ?_
  rw [List.nil_append]
  refine List.pairwise_append.mpr ⟨pairwise_mapIdx_of operands, ?_, ?_⟩
  · rw [hguard]
    exact List.pairwise_singleton _ _
  · intro d hd e he
    obtain ⟨i, hi, rfl⟩ := List.mem_mapIdx.mp hd
    rw [hguard] at he
    rw [List.mem_singleton.mp he, Bool.eq_false_iff]
    intro hsame
    exact Bool.false_ne_true ((hother i _).symm.trans (Check.beq_iff.mp hsame).2)

namespace Operation

variable {σ : Type} {s : Scope σ} {op : Operation} {target : Operand} {args : List Operand}
  {c : Callable} {verdict : Verdict}

/-- Whatever becomes of a call of a function, the rule has the guard on the operands and on the
function. -/
theorem guard_of_call (hcallee : op.callee? target = some c)
    (h : (op.judge s (target :: args)).Gives verdict) :
    (verdict.rule none).guard = (Guard.ofOperands (target :: args)).merge c.guard := by
  have hcallable := callable?_of_callee? hcallee
  have hnil : target.isNil = false := by
    rw [Operand.isNil, value_of_callable? hcallable]
    rfl
  rw [judge, hnil] at h
  have hcall : ∃ call, (op.judgeCall s call target args).Gives verdict := by
    cases op with
    | invoke call => exact ⟨call, h⟩
    | invokeMember m call =>
      have hresolve : ((invokeMember m call).resolve s target args).Gives verdict := h
      simp only [resolve, hcallable, Option.isSome_some, if_true] at hresolve
      exact ⟨call, hresolve⟩
    | _ => cases hcallee
  obtain ⟨call, hcall⟩ := hcall
  rw [judgeCall, hcallable] at hcall
  obtain ⟨answer, -, hcall⟩ := Act.gives_bind hcall
  obtain rfl := Act.gives_pure hcall
  exact guard_settle

end Operation

namespace Callable

/-- What is taken off a routine's parameters never goes past their end, and what is left is their
end: as much of it as the type declares, if it declares anything and there is as much, and otherwise
all of it. Every rule for a call of the function has the checks on the operands and one more: on the
return type if the routine's parameters end as declared, and otherwise on the function itself. That
check passes on the function. -/
theorem formal_fits_guard {σ : Type} (c : Callable) :
    (c.stripped? = some c.formal ∧ c.formal <:+ c.params ∧
      (∀ declared, c.type.signature = some declared →
        c.formal.length = min declared.length c.params.length) ∧
      (c.type.signature = none → c.formal = c.params)) ∧
    (c.EndsAsDeclared → c.guard = .returns 0 c.returns) ∧
    (¬ c.EndsAsDeclared → c.guard = .sameCallable 0 c) ∧
    (∀ args, c.guard.check (.callable c :: args) = true) ∧
    ∀ (s : Scope σ) (op : Operation) (target : Operand) (args : List Operand) (verdict : Verdict),
      op.callee? target = some c → (op.judge s (target :: args)).Gives verdict →
      (verdict.rule none).guard = (Guard.ofOperands (target :: args)).merge c.guard ∧
        (verdict.rule none).guard.checks = (target :: args).mapIdx Check.of ++ c.guard.checks := by
  refine ⟨⟨c.stripped?_eq, c.formal_isSuffix, fun _ => length_formal, fun hnone => ?_⟩,
    guard_of_endsAsDeclared, guard_of_not_endsAsDeclared, c.check_guard,
    fun s op target args verdict hcallee h => ?_⟩
  · rw [formal, hnone]
  · have hguard := Operation.guard_of_call hcallee h
    exact ⟨hguard, hguard ▸ Guard.checks_merge_callable c (target :: args)⟩

/-- A closure over an environment, which its callers do not supply. -/
def closure : Callable :=
  ⟨⟨4⟩, "closure", .delegate 300 "Pair" "Test.Pair" [⟨"a", .integer⟩, ⟨"b", .text⟩],
    [⟨"env", .table⟩, ⟨"a", .integer⟩, ⟨"b", .text⟩], .integer, .native 0⟩

/-- The closure is called with a number and nil. The environment is taken off, and the rule is for
all functions of the closure's type that return integers. -/
theorem formal_fits_guard_closure :
    closure.formal.length = 2 ∧
      ∃ verdict, ((Operation.invoke (.positional 2)).judge
          (⟨smallResolver, .initial, .nil⟩ : Scope Unit)
          [.known (.callable closure), .known (.integer 1), .known .nil]).Gives verdict ∧
        (verdict.rule none).guard.checks.map Check.operand = [0, 1, 2, 0] ∧
        closure.guard = .returns 0 .integer := by
  obtain ⟨⟨-, -, hlength, -⟩, hdeclared, -, -, hcall⟩ := formal_fits_guard (σ := Unit) closure
  have hends : closure.EndsAsDeclared := by
    refine ⟨_, [⟨"a", .integer⟩, ⟨"b", .text⟩], rfl, ⟨[⟨"env", .table⟩], rfl⟩, ?_⟩
    exact .cons ⟨rfl, rfl⟩ (.cons ⟨rfl, rfl⟩ .nil)
  obtain ⟨verdict, hverdict⟩ : ∃ verdict, ((Operation.invoke (.positional 2)).judge
      (⟨smallResolver, .initial, .nil⟩ : Scope Unit)
      [.known (.callable closure), .known (.integer 1), .known .nil]).Gives verdict :=
    ⟨_, (), _, rfl⟩
  refine ⟨hlength _ rfl, verdict, hverdict, ?_, hdeclared hends⟩
  rw [(hcall _ _ _ _ verdict rfl hverdict).2, hdeclared hends]
  rfl

end Callable

end Dispatch
