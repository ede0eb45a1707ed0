import Mathlib.Tactic.Choose
import Dispatch.Proofs.Judgement
import Dispatch.Proofs.Writing

/-!
# What the resolver is asked

Of the nine kinds of operation each has its own question to the resolver, but for calls of
functions, which all ask the same. `Question` lists what can be asked and `Resolver.answer` is what
the resolver does about it. `Operation.Asks` says which question an operation asks about a row of
operands, and `Operation.Settled` when it asks none; it is always one of the two
(`settled_or_asks`), and never both (`not_settled_of_asks`).

A resolver is pure (`Resolver.Pure`) if each question has its one answer.

In the runtime: the calls of a `Resolver` in `bind` of the nine binders.

Main statements: an operation that is settled comes to its verdict without the resolver
(`judge_of_settled`), and any other one asks its question once, at the start, and makes its verdict
of the answer (`judge_of_asks`). In both cases it is clear when the operation is refused; and when
it is performed on an answer, this is by the fragment in it (`exec_judge_of_answered`).
-/

namespace Dispatch

variable {σ : Type}

/-- What a resolver can be asked, with what it is told. -/
inductive Question where
  | getMember (target : Ty) (member : MemberName)
  /-- The value is not told, and only handed over as a member of some type needs it. -/
  | setMember (target : Ty) (member : MemberName)
  | getIndex (target : Operand) (indexes : List Operand)
  | setIndex (target : Operand) (indexes : List Operand) (value : Operand)
  | invokeMember (identity : Ty) (call : CallShape) (target : Operand) (args : List Operand)
    (member : MemberName)
  | bindParameters (formal : List (Param Ty)) (call : CallShape) (args : List Operand)
    (invoke : List Fragment → Fragment)
  | binary (operator : BinaryOperator) (left right : Operand)
  | unary (operator : UnaryOperator) (operand : Operand)
  | convert (source : Fragment) (destination : Ty)

/-- The form that answers to a question have. -/
def Question.Answer : Question → Type
  | getMember _ _ => ReadAnswer
  | setMember _ _ => WriteAnswer
  | invokeMember _ _ _ _ _ => Except Refusal (Option Fragment)
  | getIndex _ _ | setIndex _ _ _ | bindParameters _ _ _ _ | binary _ _ _ | unary _ _
  | convert _ _ => Resolution

/-- Whether an answer is that there is no way to read. -/
def ReadAnswer.isRefusal : ReadAnswer → Bool
  | resolved _ => false
  | notReadable | notFound => true

/-- Whether there is no fragment in a resolution. -/
def Resolution.isRefusal : Resolution → Bool
  | .ok _ => false
  | .error _ => true

/-- Whether there is no member to call, or no way to call it. -/
def Question.refusesMember : Except Refusal (Option Fragment) → Bool
  | .ok (some _) => false
  | .ok none | .error _ => true

/-- Whether an answer to a question holds no fragment. -/
def Question.fails : (q : Question) → q.Answer → Bool
  | getMember _ _ => ReadAnswer.isRefusal
  | setMember _ _ => WriteAnswer.isRefusal
  | invokeMember _ _ _ _ _ => refusesMember
  | getIndex _ _ | setIndex _ _ _ | bindParameters _ _ _ _ | binary _ _ _ | unary _ _
  | convert _ _ => Resolution.isRefusal

/-- The fragment in an answer. -/
def Question.fragment? : (q : Question) → q.Answer → Option Fragment
  | getMember _ _, .resolved f => some f
  | setMember _ _, .resolved f => some f
  | invokeMember _ _ _ _ _, .ok (some f) => some f
  | getIndex _ _, .ok f | setIndex _ _ _, .ok f | bindParameters _ _ _ _, .ok f
  | binary _ _ _, .ok f | unary _ _, .ok f | convert _ _, .ok f => some f
  | _, _ => none

/-- The operand behind the target, which a write stores. -/
def Operand.stored (operands : List Operand) : Operand :=
  operands.getD 1 (.unknown .object)

/-- What a resolver does about a question that is asked about some operands. -/
def Resolver.answer (r : Resolver σ) (operands : List Operand) : (q : Question) → Act σ q.Answer
  | .getMember t m => r.getMember t m
  | .setMember t m => r.setMember t m (Operation.converted r (.stored operands))
  | .getIndex target indexes => r.getIndex target indexes
  | .setIndex target indexes value => r.setIndex target indexes value
  | .invokeMember identity call target args m => r.invokeMember identity call target args m
  | .bindParameters formal call args invoke => r.bindParameters formal call args invoke
  | .binary operator left right => r.binary operator left right
  | .unary operator operand => r.unary operator operand
  | .convert source t => r.convert source t

/-- Whether a verdict is a refusal. -/
def Verdict.isRefused : Verdict → Bool
  | performed _ => false
  | refused _ => true

/-- A resolver whose answers are all settled beforehand. Of a write it makes an inquiry, whose
answer may depend on what conversions come to. -/
structure Resolver.Pure (r : Resolver σ) : Prop where
  getMember : ∀ t m, ∃ a, r.getMember t m = pure a
  setMember : ∀ t m, ∃ i : Inquiry, ∀ converted, r.setMember t m converted = i.run converted
  getIndex : ∀ target indexes, ∃ a, r.getIndex target indexes = pure a
  setIndex : ∀ target indexes value, ∃ a, r.setIndex target indexes value = pure a
  invokeMember : ∀ identity call target args m,
    ∃ a, r.invokeMember identity call target args m = pure a
  bindParameters : ∀ formal call args invoke, ∃ a, r.bindParameters formal call args invoke = pure a
  binary : ∀ operator left right, ∃ a, r.binary operator left right = pure a
  unary : ∀ operator operand, ∃ a, r.unary operator operand = pure a
  convert : ∀ source t, ∃ a, r.convert source t = pure a

namespace Resolver.Pure

variable {r : Resolver σ}

/-- The value of a write is converted to each type in its one way. -/
theorem converted (h : r.Pure) (value : Operand) :
    ∃ conversion : Ty → Resolution, ∀ t,
      Operation.converted r value t = pure (conversion t) := by
  have heach : ∀ t, ∃ a, Operation.converted r value t = pure a := by
    intro t
    unfold Operation.converted
    dsimp only
    split
    next => exact ⟨_, rfl⟩
    next => exact h.convert _ _
  choose conversion hconversion using heach
  exact ⟨conversion, hconversion⟩

/-- Each question has its one answer. -/
theorem answer (h : r.Pure) (operands : List Operand) (q : Question) :
    ∃ a, r.answer operands q = pure a := by
  cases q with
  | setMember t m =>
    obtain ⟨i, hi⟩ := h.setMember t m
    obtain ⟨conversion, hconversion⟩ := h.converted (.stored operands)
    have hwrite : r.setMember t m (Operation.converted r (.stored operands)) =
        pure (i.decide conversion) := by
      rw [hi, funext hconversion, Inquiry.run_pure]
    exact ⟨_, hwrite⟩
  | getMember t m => exact h.getMember t m
  | getIndex target indexes => exact h.getIndex target indexes
  | setIndex target indexes value => exact h.setIndex target indexes value
  | invokeMember identity call target args m => exact h.invokeMember identity call target args m
  | bindParameters formal call args invoke => exact h.bindParameters formal call args invoke
  | binary operator left right => exact h.binary operator left right
  | unary operator operand => exact h.unary operator operand
  | convert source t => exact h.convert source t

end Resolver.Pure

theorem smallResolver_pure : (smallResolver : Resolver σ).Pure where
  getMember _ _ := ⟨_, rfl⟩
  setMember target m := by
    refine ⟨.ask .integer fun
      | .ok value => .answer
        (.resolved (.host (m.name ++ "=") [.operand 0 target, value] (.native 0) .void))
      | .error _ => .answer .notWritable, fun converted => ?_⟩
    refine bind_congr fun answer => ?_
    cases answer <;> rfl
  getIndex _ _ := ⟨_, rfl⟩
  setIndex _ _ _ := ⟨_, rfl⟩
  invokeMember _ _ _ _ _ := ⟨_, rfl⟩
  bindParameters formal _ args _ := by
    by_cases hn : formal.length = args.length
    · exact ⟨_, if_pos hn⟩
    · exact ⟨_, if_neg hn⟩
  binary _ _ _ := ⟨_, rfl⟩
  unary _ _ := ⟨_, rfl⟩
  convert _ _ := ⟨_, rfl⟩

namespace Operation

/-- The question that an operation asks about a row of operands: target, arguments, and the value to
store. -/
inductive Asks (types : Registry) : Operation → List Operand → Question → Prop
  | getMember {m : MemberName} {target : Operand} : target.isNil = false →
    Asks types (.getMember m) [target] (.getMember target.limitType m)
  | setMember {m : MemberName} {target value : Operand} : target.isNil = false →
    Asks types (.setMember m) [target, value] (.setMember target.limitType m)
  | getIndex {call : CallShape} {target : Operand} {indexes : List Operand} :
    target.isNil = false →
    Asks types (.getIndex call) (target :: indexes) (.getIndex target indexes)
  | setIndex {call : CallShape} {target value : Operand} {indexes : List Operand} :
    target.isNil = false →
    Asks types (.setIndex call) (target :: (indexes ++ [value])) (.setIndex target indexes value)
  | invoke {call : CallShape} {target : Operand} {args : List Operand} {c : Callable} :
    target.callable? = some c →
    Asks types (.invoke call) (target :: args)
      (.bindParameters c.formal call args (.invoke (target.read 0) · c.returns))
  /-- A function is called itself, whatever the member. -/
  | redirect {m : MemberName} {call : CallShape} {target : Operand} {args : List Operand}
    {c : Callable} : target.callable? = some c →
    Asks types (.invokeMember m call) (target :: args)
      (.bindParameters c.formal call args (.invoke (target.read 0) · c.returns))
  | invokeMember {m : MemberName} {call : CallShape} {target : Operand} {args : List Operand} :
    target.isNil = false → target.callable? = none →
    Asks types (.invokeMember m call) (target :: args)
      (.invokeMember (types.identity target.limitType) call target args m)
  | binary {request : BinaryRequest} {left right : Operand} :
    Asks types (.binary request) [left, right] (.binary request.meaning left right)
  | unary {operator : UnaryOperator} {operand : Operand} : operand.isNil = false →
    Asks types (.unary operator) [operand] (.unary operator operand)
  | convert {t : Ty} {operand : Operand} : operand.isNil = false → t.isObject = false →
    (operand.limitType == t) = false →
    Asks types (.convert t) [operand] (.convert (operand.read 0) t)

/-- The target settles the operation, and nothing is asked. -/
def Settled (op : Operation) (target : Operand) : Prop :=
  (target.isNil = true ∧ op.kind ≠ .binary) ∨ (op.kind = .invoke ∧ target.callable? = none) ∨
    ∃ t, op = .convert t ∧ (t.isObject = true ∨ (target.limitType == t) = true)

/-- The target settles the operation against performing it. -/
def Hopeless (op : Operation) (target : Operand) : Prop :=
  (target.isNil = true ∧ op.kind ≠ .binary ∧ op.kind ≠ .convert) ∨
    (op.kind = .invoke ∧ target.callable? = none)

variable {s : Scope σ} {op : Operation} {target : Operand} {rest operands : List Operand}
  {types : Registry} {q : Question}

theorem isNil_of_callable? {c : Callable} (h : target.callable? = some c) :
    target.isNil = false := by
  obtain ⟨v, hv, hc⟩ := Option.bind_eq_some_iff.mp h
  rw [Operand.isNil, hv]
  cases v <;> first | rfl | cases hc

theorem Hopeless.settled (h : op.Hopeless target) : op.Settled target :=
  h.imp (fun ⟨hnil, hkind, _⟩ => ⟨hnil, hkind⟩) .inl

/-- What a question is asked about is not settled. -/
theorem not_settled_of_asks (h : op.Asks types (target :: rest) q) : ¬ op.Settled target := by
  generalize hoperands : target :: rest = operands at h
  -- a target that is nil or no function is asked about in some other way, or not at all
  cases h <;> cases hoperands <;>
    simp_all [Settled, kind, isNil_of_callable?]

/-- An operation asks one question about a row of operands. -/
theorem asks_unique {q' : Question} (h : op.Asks types operands q)
    (h' : op.Asks types operands q') : q = q' := by
  cases h with
  | @setIndex call target value indexes hnil =>
    generalize hoperands : target :: (indexes ++ [value]) = row at h'
    cases h'
    obtain ⟨rfl, hrow⟩ := List.cons.inj hoperands
    obtain ⟨rfl, hvalue⟩ := List.append_inj' hrow rfl
    cases hvalue
    rfl
  | invoke hc =>
    cases h' with
    | invoke hc' =>
      cases hc.symm.trans hc'
      rfl
  | redirect hc =>
    cases h' with
    | redirect hc' =>
      cases hc.symm.trans hc'
      rfl
    | invokeMember hnil hnone => cases hc.symm.trans hnone
  | invokeMember hnil hnone =>
    cases h' with
    | redirect hc => cases hc.symm.trans hnone
    | invokeMember => rfl
  | _ =>
    cases h'
    rfl

/-- Only a write asks to store in a member. -/
theorem kind_of_asks_setMember {t : Ty} {m : MemberName}
    (h : op.Asks types operands (.setMember t m)) : op.kind = .setMember := by
  cases h
  rfl

/-- An operation is settled by its target, or it asks. -/
theorem settled_or_asks (types : Registry) (hn : (target :: rest).length = op.operandCount) :
    op.Settled target ∨ ∃ q, op.Asks types (target :: rest) q := by
  -- a row of one operand is its target, and one of two the target and the value
  have hone : op.operandCount = 1 → rest = [] := fun h =>
    List.length_eq_zero_iff.mp (by rw [List.length_cons] at hn; omega)
  have htwo : op.operandCount = 2 → ∃ value, rest = [value] := fun h =>
    List.length_eq_one_iff.mp (by rw [List.length_cons] at hn; omega)
  by_cases hnil : target.isNil = true ∧ op.kind ≠ .binary
  · exact .inl (.inl hnil)
  have hnot : op.kind ≠ .binary → target.isNil = false := fun h =>
    Bool.eq_false_iff.mpr fun ht => hnil ⟨ht, h⟩
  cases op with
  | getMember m =>
    obtain rfl := hone rfl
    exact .inr ⟨_, .getMember (hnot (by simp [kind]))⟩
  | setMember m =>
    obtain ⟨value, rfl⟩ := htwo rfl
    exact .inr ⟨_, .setMember (hnot (by simp [kind]))⟩
  | getIndex call => exact .inr ⟨_, .getIndex (hnot (by simp [kind]))⟩
  | setIndex call =>
    have hrest : rest ≠ [] := by
      rintro rfl
      rw [operandCount, List.length_singleton] at hn
      omega
    rw [← List.dropLast_append_getLast hrest]
    exact .inr ⟨_, .setIndex (hnot (by simp [kind]))⟩
  | invoke call =>
    cases hc : target.callable? with
    | none => exact .inl (.inr (.inl ⟨rfl, hc⟩))
    | some c => exact .inr ⟨_, .invoke hc⟩
  | invokeMember m call =>
    cases hc : target.callable? with
    | none => exact .inr ⟨_, .invokeMember (hnot (by simp [kind])) hc⟩
    | some c => exact .inr ⟨_, .redirect hc⟩
  | binary request =>
    obtain ⟨right, rfl⟩ := htwo rfl
    exact .inr ⟨_, .binary⟩
  | unary operator =>
    obtain rfl := hone rfl
    exact .inr ⟨_, .unary (hnot (by simp [kind]))⟩
  | convert t =>
    obtain rfl := hone rfl
    by_cases ht : t.isObject = true ∨ (target.limitType == t) = true
    · exact .inl (.inr (.inr ⟨t, rfl, ht⟩))
    · rw [not_or, Bool.not_eq_true, Bool.not_eq_true] at ht
      exact .inr ⟨_, .convert (hnot (by simp [kind])) ht.1 ht.2⟩

/-- Without nil as the target an operation is resolved. -/
theorem judge_of_not_nil (h : target.isNil = false) :
    op.judge s (target :: rest) = op.resolve s target rest := by
  rw [judge, h]
  rfl

/-- Nil as the target is refused, but for conversions. -/
theorem isRefused_onNil {empty : Value} {verdict : Verdict}
    (h : op.onNil empty target = some verdict) :
    verdict.isRefused = true ↔ op.kind ≠ .convert := by
  cases op <;> cases h <;> simp [refuse, Verdict.isRefused, kind]

/-- A settled operation comes to its verdict without a question. -/
theorem judge_of_settled (s : Scope σ) (hn : (target :: rest).length = op.operandCount)
    (h : op.Settled target) :
    ∃ verdict, op.judge s (target :: rest) = pure verdict ∧
      (verdict.isRefused = true ↔ op.Hopeless target) := by
  by_cases hnil : target.isNil = true ∧ op.kind ≠ .binary
  · obtain ⟨verdict, hverdict⟩ : ∃ verdict, op.onNil s.emptyResult target = some verdict :=
      Option.ne_none_iff_exists'.mp fun hnone => hnil.2 (onNil_eq_none_iff.mp hnone)
    refine ⟨verdict, by rw [judge, if_pos hnil.1, hverdict], ?_⟩
    rw [isRefused_onNil hverdict]
    constructor
    · exact fun hconvert => .inl ⟨hnil.1, hnil.2, hconvert⟩
    · rintro (⟨-, -, hconvert⟩ | ⟨hinvoke, -⟩)
      · exact hconvert
      · rw [hinvoke]
        decide
  · have hfalse : op.kind ≠ .binary → target.isNil = false := fun hkind =>
      Bool.eq_false_iff.mpr fun ht => hnil ⟨ht, hkind⟩
    rcases h with h | ⟨hkind, hc⟩ | ⟨t, rfl, ht⟩
    · exact absurd h hnil
    · -- a value that is no function is called
      cases op with
      | invoke call =>
        refine ⟨(invoke call).refuse (.notCallable target.limitType.name)
          (.ofOperands (target :: rest)), ?_, fun _ => .inr ⟨rfl, hc⟩, fun _ => rfl⟩
        rw [judge_of_not_nil (hfalse (by simp [kind])), resolve, judgeCall, hc]
      | _ => cases hkind
    · -- there is nothing to convert
      refine ⟨.performed ⟨target.read 0, .ofOperands [target]⟩, ?_, (fun h => by cases h), ?_⟩
      · rw [judge_of_not_nil (hfalse (by simp [kind])), resolve]
        exact if_pos (by rw [Bool.or_eq_true]; exact ht.symm)
      · rintro (⟨htrue, hbinary, -⟩ | ⟨hkind, -⟩)
        · exact absurd ⟨htrue, hbinary⟩ hnil
        · cases hkind

/-- The verdict that an answer to a question about some operands calls for: a fragment is performed,
made to fit, and without one the operation is refused. -/
structure Due (op : Operation) (empty : Value) (operands : List Operand) (q : Question)
    (a : q.Answer) (verdict : Verdict) : Prop where
  refused : verdict.isRefused = q.fails a
  performed : ∀ f, q.fragment? a = some f → ∃ target rest, operands = target :: rest ∧
    verdict = .performed ⟨op.fit empty f, op.fullGuard target rest⟩

/-- What makes a verdict of every answer makes the verdict that is concluded from the answer. -/
theorem concludes {α : Type} {x : Act σ α} {f : α → Act σ Verdict} {P : α → Verdict → Prop}
    (h : ∀ a, ∃ verdict, f a = pure verdict ∧ P a verdict) :
    ∃ conclude : α → Verdict, (x >>= f) = (do pure (conclude (← x))) ∧ ∀ a, P a (conclude a) := by
  choose conclude hconclude hP using h
  refine ⟨conclude, ?_, hP⟩
  rw [show f = fun a => pure (conclude a) from funext hconclude]

/-- A call of a function makes its verdict of what comes of matching the arguments. -/
theorem judgeCall_of_callable {call : CallShape} {args : List Operand} {c : Callable}
    (hcallee : op.callee? target = some c)
    (hfit : ∀ f, op.fit s.emptyResult f = f.returningResult s.emptyResult) :
    ∃ conclude : Resolution → Verdict,
      op.judgeCall s call target args = (do pure (conclude (←
        s.resolver.bindParameters c.formal call args (.invoke (target.read 0) · c.returns)))) ∧
      ∀ a, op.Due s.emptyResult (target :: args)
        (.bindParameters c.formal call args (.invoke (target.read 0) · c.returns)) a
        (conclude a) := by
  rw [judgeCall, callable?_of_callee? hcallee]
  refine concludes fun a => ⟨_, rfl, ?_⟩
  cases a with
  | error reason => exact ⟨rfl, fun f hf => by cases hf⟩
  | ok f =>
    refine ⟨rfl, fun g hg => ⟨target, args, rfl, ?_⟩⟩
    cases hg
    rw [hfit, fullGuard, hcallee]
    rfl

/-- The last of the operands behind the target is the value, and the others are indexes. -/
theorem resolve_setIndex {call : CallShape} {indexes : List Operand} {value : Operand} :
    (setIndex call).resolve s target (indexes ++ [value]) = (do
      pure ((setIndex call).settle (.ofOperands (target :: (indexes ++ [value])))
        (·.returning .object) (← s.resolver.setIndex target indexes value))) := by
  cases hrow : indexes ++ [value] with
  | nil => exact absurd hrow (by simp)
  | cons index more =>
    have hindexes : (index :: more).dropLast = indexes := by
      rw [← hrow, List.dropLast_concat]
    have hvalue : (index :: more).getLast (List.cons_ne_nil _ _) = value := by
      simp only [← hrow, List.getLast_append_singleton]
    rw [resolve, hindexes, hvalue]

/-- An operation that asks makes the verdict of the answer that the answer calls for. -/
theorem judge_of_asks (h : op.Asks s.types operands q) :
    ∃ conclude : q.Answer → Verdict,
      op.judge s operands = (do pure (conclude (← s.resolver.answer operands q))) ∧
      ∀ a, op.Due s.emptyResult operands q a (conclude a) := by
  -- with the answer at hand the verdict is there to see, and the fragment, if there is one, with it
  cases h with
  | getMember hnil | setMember hnil | getIndex hnil | unary hnil =>
    rw [judge_of_not_nil hnil]
    refine concludes fun a => ?_
    cases a <;> exact ⟨_, rfl, rfl, fun f hf => by cases hf <;> exact ⟨_, _, rfl, rfl⟩⟩
  | setIndex hnil =>
    rw [judge_of_not_nil hnil, resolve_setIndex]
    refine concludes fun a => ?_
    cases a <;> exact ⟨_, rfl, rfl, fun f hf => by cases hf <;> exact ⟨_, _, rfl, rfl⟩⟩
  | invoke hc =>
    rw [judge_of_not_nil (isNil_of_callable? hc)]
    exact judgeCall_of_callable hc fun _ => rfl
  | redirect hc =>
    rw [judge_of_not_nil (isNil_of_callable? hc), resolve, if_pos (by rw [hc]; rfl)]
    exact judgeCall_of_callable hc fun _ => rfl
  | @invokeMember m call target args hnil hc =>
    rw [judge_of_not_nil hnil, resolve, if_neg (by rw [hc]; exact Bool.false_ne_true)]
    refine concludes fun a => ?_
    cases a with
    | error reason => exact ⟨_, rfl, rfl, fun f hf => by cases hf⟩
    | ok found =>
      cases found with
      | none => exact ⟨_, rfl, rfl, fun f hf => by cases hf⟩
      | some f =>
        refine ⟨_, rfl, rfl, fun g hg => ⟨target, args, rfl, ?_⟩⟩
        cases hg
        rw [fullGuard, callee?, hc]
        rfl
  | binary =>
    rw [judge, onNil_eq_none_iff.mpr rfl, ite_self]
    refine concludes fun a => ?_
    cases a <;> exact ⟨_, rfl, rfl, fun f hf => by cases hf <;> exact ⟨_, _, rfl, rfl⟩⟩
  | @convert t target hnil hobject htype =>
    rw [judge_of_not_nil hnil]
    have hneeded : ¬ ((target.read 0).type == t || t.isObject) = true := by
      rw [hobject, Bool.or_false]
      exact Bool.eq_false_iff.mp htype
    rw [resolve, if_neg hneeded]
    refine concludes fun a => ?_
    cases a <;> exact ⟨_, rfl, rfl, fun f hf => by cases hf <;> exact ⟨_, _, rfl, rfl⟩⟩

/-- Answered with a fragment, an operation performs it. -/
theorem exec_judge_of_answered {a : q.Answer} {f : Fragment} {e u : σ}
    (h : op.Asks s.types (target :: rest) q)
    (ha : (s.resolver.answer (target :: rest) q).exec e = (.ok a, u))
    (hf : q.fragment? a = some f) :
    (op.judge s (target :: rest)).exec e =
      (.ok (.performed ⟨op.fit s.emptyResult f, op.fullGuard target rest⟩), u) := by
  obtain ⟨conclude, hjudge, hdue⟩ := judge_of_asks h
  obtain ⟨target', rest', hrow, hverdict⟩ := (hdue a).performed f hf
  cases hrow
  rw [hjudge, Act.exec_bind_pure, ha, ← hverdict]
  rfl

end Operation

end Dispatch
