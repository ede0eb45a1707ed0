import Dispatch.Proofs.Verdict

/-!
# What a verdict can be

A verdict comes about in few ways. Nil as the target settles most operations. A conversion to the
type that is there, or to object, gives the operand back. Otherwise the resolver is asked: its
fragment is performed, made to fit what the operation promises, or the operation is refused.
`CanBe` lists these ways, each with the guard of its rule, and `canBe_of_judge` says that there are
no others, whatever the resolver answers. So what holds of all verdicts follows case by case from
`CanBe`, and nobody needs to go through the nine kinds of operation again.

What is done to the state meanwhile is what the resolver does (`judge_within`).

In the runtime: `bind` of the nine binders, whatever the `Resolver`.
-/

namespace Dispatch

/-- A resolver that changes the state along `R` only, as long as the conversions that it is handed
do. -/
structure Resolver.Within {σ : Type} (R : σ → σ → Prop) (r : Resolver σ) : Prop where
  getMember : ∀ t m, Act.Within R (r.getMember t m)
  setMember : ∀ t m converted, (∀ u, Act.Within R (converted u)) →
    Act.Within R (r.setMember t m converted)
  getIndex : ∀ target indexes, Act.Within R (r.getIndex target indexes)
  setIndex : ∀ target indexes value, Act.Within R (r.setIndex target indexes value)
  invokeMember : ∀ identity call target args m,
    Act.Within R (r.invokeMember identity call target args m)
  bindParameters : ∀ formal call args invoke,
    Act.Within R (r.bindParameters formal call args invoke)
  binary : ∀ operator left right, Act.Within R (r.binary operator left right)
  unary : ∀ operator operand, Act.Within R (r.unary operator operand)
  convert : ∀ source t, Act.Within R (r.convert source t)

namespace Operation

variable {σ : Type}

/-- The function that the operation calls with its other operands, if that is what it does. -/
def callee? (op : Operation) (target : Operand) : Option Callable :=
  match op with
  | invoke _ | invokeMember _ _ => target.callable?
  | _ => none

theorem callable?_of_callee? {op : Operation} {target : Operand} {c : Callable}
    (h : op.callee? target = some c) : target.callable? = some c := by
  cases op <;> first | exact h | cases h

/-- The guard on all operands, and on the function if one is called. -/
def fullGuard (op : Operation) (target : Operand) (rest : List Operand) : Guard :=
  match op.callee? target with
  | none => .ofOperands (target :: rest)
  | some c => (Guard.ofOperands (target :: rest)).merge c.guard

/-- A fragment of the resolver made to fit what the operation promises. -/
def fit (op : Operation) (empty : Value) (f : Fragment) : Fragment :=
  match op with
  | invoke _ | invokeMember _ _ => f.returningResult empty
  | convert t => f.coerce t
  | _ => f.returning .object

/-- The resolver may answer with `f` when a function is called with some arguments. -/
def AnsweredCall (r : Resolver σ) (call : CallShape) (target : Operand) (args : List Operand)
    (f : Fragment) : Prop :=
  ∃ c, target.callable? = some c ∧
    (r.bindParameters c.formal call args (.invoke (target.read 0) · c.returns)).Gives (.ok f)

/-- The resolver may answer with `f` when the operation asks about these operands. -/
def Answered (s : Scope σ) (op : Operation) (target : Operand) (rest : List Operand)
    (f : Fragment) : Prop :=
  match op, rest with
  | getMember m, _ => (s.resolver.getMember target.limitType m).Gives (.resolved f)
  | setMember m, value :: _ =>
    (s.resolver.setMember target.limitType m (converted s.resolver value)).Gives (.resolved f)
  | getIndex _, indexes => (s.resolver.getIndex target indexes).Gives (.ok f)
  | setIndex _, index :: more =>
    (s.resolver.setIndex target (index :: more).dropLast
      ((index :: more).getLast (List.cons_ne_nil _ _))).Gives (.ok f)
  | invoke call, args => AnsweredCall s.resolver call target args f
  | invokeMember m call, args =>
    if target.callable?.isSome then AnsweredCall s.resolver call target args f
    else (s.resolver.invokeMember (s.types.identity target.limitType) call target args m).Gives
      (.ok (some f))
  | binary request, right :: _ => (s.resolver.binary request.meaning target right).Gives (.ok f)
  | unary operator, _ => (s.resolver.unary operator target).Gives (.ok f)
  | convert t, _ => (s.resolver.convert (target.read 0) t).Gives (.ok f)
  | _, _ => False

/-- The verdicts that an operation can come to. -/
inductive CanBe (s : Scope σ) (op : Operation) (target : Operand) (rest : List Operand) :
    Verdict → Prop
  /-- Nil as the target settles the operation. -/
  | settled {verdict : Verdict} : target.isNil = true →
    op.onNil s.emptyResult target = some verdict → CanBe s op target rest verdict
  /-- There is nothing to convert. -/
  | unchanged {t : Ty} : op = convert t → ((target.read 0).type == t || t.isObject) = true →
    CanBe s op target rest (.performed ⟨target.read 0, op.fullGuard target rest⟩)
  | resolved {f : Fragment} : op.Answered s target rest f →
    CanBe s op target rest (.performed ⟨op.fit s.emptyResult f, op.fullGuard target rest⟩)
  /-- There is no member to read. -/
  | absent : op.kind = .getMember →
    CanBe s op target rest (.refused ⟨.zero .object, op.fullGuard target rest⟩)
  | refused {complaint : Complaint} {guard : Guard} :
    guard = .ofOperands [target] ∨ guard = op.fullGuard target rest →
    CanBe s op target rest (op.refuse complaint guard)

variable {s : Scope σ} {op : Operation} {target : Operand} {rest : List Operand}

/-- The verdict on an answer of the resolver is one that can be. -/
theorem canBe_settle {answer : Resolution}
    (h : ∀ f, answer = .ok f → op.Answered s target rest f) :
    op.CanBe s target rest
      (op.settle (op.fullGuard target rest) (op.fit s.emptyResult) answer) := by
  cases answer with
  | ok f => exact .resolved (h f rfl)
  | error reason => exact .refused (.inr rfl)

/-- An answer of the resolver leads to a verdict that can be. -/
theorem canBe_of_settle {x : Act σ Resolution} {verdict : Verdict}
    (h : ∀ f, x.Gives (.ok f) → op.Answered s target rest f)
    (hverdict : (do
      pure (op.settle (op.fullGuard target rest) (op.fit s.emptyResult) (← x))).Gives verdict) :
    op.CanBe s target rest verdict := by
  obtain ⟨answer, hanswer, hverdict⟩ := Act.gives_bind hverdict
  obtain rfl := Act.gives_pure hverdict
  refine canBe_settle fun f hf => h f ?_
  rw [← hf]
  exact hanswer

theorem canBe_of_judgeCall {call : CallShape} {verdict : Verdict}
    (hcallee : op.callee? target = target.callable?)
    (hfit : op.fit s.emptyResult = (·.returningResult s.emptyResult))
    (hanswered : ∀ f, AnsweredCall s.resolver call target rest f → op.Answered s target rest f)
    (h : (op.judgeCall s call target rest).Gives verdict) : op.CanBe s target rest verdict := by
  unfold judgeCall at h
  cases hc : target.callable? with
  | none =>
    rw [hc] at h
    obtain rfl := Act.gives_pure h
    refine .refused (.inr ?_)
    rw [fullGuard, hcallee, hc]
  | some c =>
    have hguard : op.fullGuard target rest =
        (Guard.ofOperands (target :: rest)).merge c.guard := by
      rw [fullGuard, hcallee, hc]
    rw [hc] at h
    dsimp only at h
    rw [← hguard, ← hfit] at h
    exact canBe_of_settle (fun f hf => hanswered f ⟨c, hc, hf⟩) h

/-- The verdict that takes the resolver's answer is one that can be. -/
theorem canBe_of_resolve {verdict : Verdict} (hn : rest.length + 1 = op.operandCount)
    (h : (op.resolve s target rest).Gives verdict) : op.CanBe s target rest verdict := by
  -- a row of one operand is its target
  have hone : op.operandCount = 1 → rest = [] := fun hcount =>
    List.length_eq_zero_iff.mp (by omega)
  cases op with
  | getMember m =>
    obtain rfl := hone rfl
    obtain ⟨answer, hanswer, h⟩ := Act.gives_bind h
    cases answer with
    | resolved f =>
      obtain rfl := Act.gives_pure h
      exact .resolved hanswer
    | notReadable =>
      obtain rfl := Act.gives_pure h
      exact .refused (.inl rfl)
    | notFound =>
      obtain rfl := Act.gives_pure h
      exact .absent rfl
  | setMember m =>
    obtain ⟨value, rfl⟩ : ∃ value, rest = [value] := List.length_eq_one_iff.mp (by
      rw [operandCount] at hn
      omega)
    obtain ⟨answer, hanswer, h⟩ := Act.gives_bind h
    cases answer with
    | resolved f =>
      obtain rfl := Act.gives_pure h
      exact .resolved hanswer
    | notWritable =>
      obtain rfl := Act.gives_pure h
      exact .refused (.inl rfl)
    | notFound =>
      obtain rfl := Act.gives_pure h
      exact .refused (.inl rfl)
  | getIndex call => exact canBe_of_settle (fun _ hf => hf) h
  | setIndex call =>
    cases rest with
    | nil => exact absurd hn (by rw [operandCount, List.length_nil]; omega)
    | cons index more => exact canBe_of_settle (fun _ hf => hf) h
  | invoke call => exact canBe_of_judgeCall rfl rfl (fun _ hf => hf) h
  | invokeMember m call =>
    simp only [resolve] at h
    split at h
    next hc =>
      refine canBe_of_judgeCall rfl rfl
        (fun f (hf : AnsweredCall s.resolver call target rest f) => ?_) h
      rw [Answered, if_pos hc]
      exact hf
    next hc =>
      have hguard : (invokeMember m call).fullGuard target rest =
          .ofOperands (target :: rest) := by
        rw [fullGuard, callee?, Option.not_isSome_iff_eq_none.mp hc]
      obtain ⟨answer, hanswer, h⟩ := Act.gives_bind h
      rw [← hguard] at h
      cases answer with
      | error reason =>
        obtain rfl := Act.gives_pure h
        exact .refused (.inr rfl)
      | ok found =>
        cases found with
        | none =>
          obtain rfl := Act.gives_pure h
          exact .refused (.inr rfl)
        | some f =>
          obtain rfl := Act.gives_pure h
          refine .resolved ?_
          rw [Answered, if_neg hc]
          exact hanswer
  | binary request =>
    cases rest with
    | nil => exact absurd hn (by simp [operandCount])
    | cons right more => exact canBe_of_settle (fun _ hf => hf) h
  | unary operator =>
    obtain rfl := hone rfl
    exact canBe_of_settle (fun _ hf => hf) h
  | convert t =>
    obtain rfl := hone rfl
    simp only [resolve] at h
    split at h
    next hsame =>
      obtain rfl := Act.gives_pure h
      exact .unchanged rfl hsame
    next => exact canBe_of_settle (fun _ hf => hf) h

/-- The verdict on operands that all have values is one that can be. -/
theorem canBe_of_judge {verdict : Verdict} (hn : rest.length + 1 = op.operandCount)
    (h : (op.judge s (target :: rest)).Gives verdict) : op.CanBe s target rest verdict := by
  rw [judge] at h
  split at h
  next settled hsettled =>
    obtain rfl := Act.gives_pure h
    rw [Option.ite_none_right_eq_some] at hsettled
    exact .settled hsettled.1 hsettled.2
  next => exact canBe_of_resolve hn h

section Within

variable {R : σ → σ → Prop}

theorem converted_within (hrefl : ∀ e, R e e) (hr : s.resolver.Within R) (value : Operand)
    (t : Ty) : Act.Within R (converted s.resolver value t) := by
  unfold converted
  dsimp only
  split
  next => exact Act.within_pure hrefl _
  next => exact hr.convert _ _

variable (hrefl : ∀ e, R e e) (htrans : ∀ {e t u}, R e t → R t u → R e u)
include hrefl htrans

/-- An answer is turned into something without any further change. -/
theorem within_answer {α β : Type} {x : Act σ α} {f : α → Act σ β} (hx : Act.Within R x)
    (hf : ∀ a, ∃ b, f a = pure b) : Act.Within R (x >>= f) := by
  refine Act.within_bind (R := R) htrans hx fun a => ?_
  obtain ⟨b, hb⟩ := hf a
  rw [hb]
  exact Act.within_pure hrefl b

theorem judgeCall_within (hr : s.resolver.Within R) (call : CallShape) :
    Act.Within R (op.judgeCall s call target rest) := by
  unfold judgeCall
  split
  next => exact Act.within_pure hrefl _
  next => exact within_answer hrefl htrans (hr.bindParameters _ _ _ _) fun _ => ⟨_, rfl⟩

/-- While an operation comes to a verdict the state changes as the resolver changes it. -/
theorem resolve_within (hr : s.resolver.Within R) :
    Act.Within R (op.resolve s target rest) := by
  unfold resolve
  dsimp only
  split
  next =>
    refine within_answer hrefl htrans (hr.getMember _ _) fun answer => ?_
    cases answer <;> exact ⟨_, rfl⟩
  next =>
    refine within_answer hrefl htrans
      (hr.setMember _ _ _ (converted_within hrefl hr _)) fun answer => ?_
    cases answer <;> exact ⟨_, rfl⟩
  next => exact within_answer hrefl htrans (hr.getIndex _ _) fun _ => ⟨_, rfl⟩
  next => exact within_answer hrefl htrans (hr.setIndex _ _ _) fun _ => ⟨_, rfl⟩
  next => exact judgeCall_within hrefl htrans hr _
  next =>
    split
    next => exact judgeCall_within hrefl htrans hr _
    next =>
      refine within_answer hrefl htrans (hr.invokeMember _ _ _ _ _) fun answer => ?_
      cases answer with
      | error reason => exact ⟨_, rfl⟩
      | ok found => cases found <;> exact ⟨_, rfl⟩
  next => exact within_answer hrefl htrans (hr.binary _ _ _) fun _ => ⟨_, rfl⟩
  next => exact within_answer hrefl htrans (hr.unary _ _) fun _ => ⟨_, rfl⟩
  next =>
    split
    next => exact Act.within_pure hrefl _
    next => exact within_answer hrefl htrans (hr.convert _ _) fun _ => ⟨_, rfl⟩
  next => exact Act.within_throw hrefl _

theorem judge_within (hr : s.resolver.Within R) (operands : List Operand) :
    Act.Within R (op.judge s operands) := by
  cases operands with
  | nil => exact Act.within_throw hrefl _
  | cons target rest =>
    rw [judge]
    split
    next => exact Act.within_pure hrefl _
    next => exact resolve_within hrefl htrans hr

end Within

end Operation

end Dispatch
