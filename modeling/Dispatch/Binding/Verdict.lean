import Dispatch.Binding.Complaint
import Dispatch.Binding.Shaping
import Dispatch.Binding.Signature
import Dispatch.Ty.Registry

/-!
# What becomes of an operation

Once all operands of an operation have values, the operation comes to a verdict: it is performed by
a rule, or it is refused and a substitute rule stands in, which for most kinds raises an error. A
caller who has a rule of their own for the second case gets that one instead of the substitute, and
in the first case never does (`Verdict.rule`). So a verdict is reached without knowing what the
caller would fall back on.

Nil as the target settles most operations without asking the resolver (`onNil`); two binary operands
are always the resolver's to judge. For everything else the resolver is asked once (`resolve`), and
the guard of the rule says for which operands the answer is used again.

In the runtime: `bind` of the nine binders, from `GetMemberBinder` to `ConvertBinder`, which all end
in `fallback_or_raise` or `from_resolve_error` where they refuse.
-/

namespace Dispatch

/-- What becomes of an operation on given operands. -/
inductive Verdict where
  /-- The rule performs the operation. -/
  | performed (rule : Rule)
  /-- The operation cannot be performed; the substitute says so, or does what little is left. -/
  | refused (substitute : Rule)

namespace Verdict

/-- The rule for a caller who may have one to fall back on. -/
def rule (fallback : Option Rule) : Verdict → Rule
  | performed r => r
  | refused substitute => fallback.getD substitute

@[simp] theorem rule_performed (fallback : Option Rule) (r : Rule) :
    (performed r).rule fallback = r := rfl

@[simp] theorem rule_refused_some (f substitute : Rule) : (refused substitute).rule (some f) = f :=
  rfl

@[simp] theorem rule_refused_none (substitute : Rule) : (refused substitute).rule none = substitute :=
  rfl

end Verdict

/-- What binding sees around it. -/
structure Scope (σ : Type) where
  resolver : Resolver σ
  types : Registry
  /-- The one empty result list that stands for no values. -/
  emptyResult : Value

namespace Operation

variable {σ : Type}

/-- The type that an operation promises to produce. -/
def returns : Operation → Ty
  | invoke _ | invokeMember _ _ => .result
  | convert destination => destination
  | _ => .object

/-- The operation is refused for a reason. -/
def refuse (op : Operation) (complaint : Complaint) (guard : Guard) : Verdict :=
  .refused (complaint.rule op.returns guard)

/-- The verdict on what the resolver answered, with its fragment made to keep the promise. -/
def settle (op : Operation) (guard : Guard) (shape : Fragment → Fragment) : Resolution → Verdict
  | .ok fragment => .performed ⟨shape fragment, guard⟩
  | .error reason => op.refuse (.refused reason) guard

/-- Nil as a type: no values, no characters, or the zero of the type. -/
def nilAs (emptyResult : Value) (t : Ty) : Fragment :=
  if t == .result then .constant emptyResult .result
  else if t == .text then .constant (.text "") .text
  else .zero t

/-- The verdict on nil as the target, for the operations that do not ask the resolver about it. -/
def onNil (emptyResult : Value) (target : Operand) (op : Operation) : Option Verdict :=
  match op with
  | getMember _ | getIndex _ | setIndex _ => some (op.refuse .indexedNil (.isNil 0))
  | setMember m => some (op.refuse (.notResolved target.static.name m.name) (.isNil 0))
  | invoke _ | invokeMember _ _ => some (op.refuse .calledNil (.isNil 0))
  | unary _ => some (op.refuse .computedNil (.isNil 0))
  | convert t => some (.performed ⟨nilAs emptyResult t, .isNil 0⟩)
  | binary _ => none

/-- The value to store as a member of type `t` needs it: as it is if the member takes it so, and
otherwise converted. -/
def converted (resolver : Resolver σ) (value : Operand) (t : Ty) : Act σ Resolution :=
  let source := value.read 1
  if t.isObject || source.type == t then pure (.ok source) else resolver.convert source t

/-- The verdict on a call of the target. -/
def judgeCall (s : Scope σ) (op : Operation) (call : CallShape) (target : Operand)
    (args : List Operand) : Act σ Verdict :=
  let guard := Guard.ofOperands (target :: args)
  match target.callable? with
  | none => pure (op.refuse (.notCallable target.limitType.name) guard)
  | some c => do
    let callee := target.read 0
    let answer ← s.resolver.bindParameters c.formal call args (.invoke callee · c.returns)
    pure (op.settle (guard.merge c.guard) (·.returningResult s.emptyResult) answer)

/-- The verdict that takes the resolver's answer. -/
def resolve (s : Scope σ) (op : Operation) (target : Operand) (rest : List Operand) :
    Act σ Verdict :=
  let type := target.limitType
  let guard := Guard.ofOperands (target :: rest)
  let object (f : Fragment) := f.returning .object
  let result (f : Fragment) := f.returningResult s.emptyResult
  match op, rest with
  | getMember m, _ => do
    match ← s.resolver.getMember type m with
    | .resolved f => pure (.performed ⟨object f, .ofOperands [target]⟩)
    | .notReadable => pure (op.refuse (.unreadable type.name m.name) (.ofOperands [target]))
    | .notFound => pure (.refused ⟨.zero .object, .ofOperands [target]⟩)
  | setMember m, value :: _ => do
    match ← s.resolver.setMember type m (converted s.resolver value) with
    | .resolved f => pure (.performed ⟨object f, .ofOperands [target, value]⟩)
    | .notWritable => pure (op.refuse (.unwritable type.name m.name) (.ofOperands [target]))
    | .notFound => pure (op.refuse (.notFound type.name m.name) (.ofOperands [target]))
  | getIndex _, indexes => do
    pure (op.settle guard object (← s.resolver.getIndex target indexes))
  | setIndex _, index :: more => do
    let indexes := (index :: more).dropLast
    let value := (index :: more).getLast (List.cons_ne_nil _ _)
    pure (op.settle guard object (← s.resolver.setIndex target indexes value))
  | invoke call, args => op.judgeCall s call target args
  | invokeMember m call, args =>
    if target.callable?.isSome then op.judgeCall s call target args
    else do
      let identity := s.types.identity type
      match ← s.resolver.invokeMember identity call target args m with
      | .ok (some f) => pure (.performed ⟨result f, guard⟩)
      | .ok none => pure (op.refuse (.notResolved identity.fullName m.name) guard)
      | .error reason => pure (op.refuse (.refused reason) guard)
  | binary request, right :: _ => do
    pure (op.settle guard object (← s.resolver.binary request.meaning target right))
  | unary operator, _ => do
    pure (op.settle (.ofOperands [target]) object (← s.resolver.unary operator target))
  | convert t, _ =>
    let source := target.read 0
    if source.type == t || t.isObject then pure (.performed ⟨source, .ofOperands [target]⟩)
    else do
      pure (op.settle (.ofOperands [target]) (·.coerce t) (← s.resolver.convert source t))
  | op, rest => throw (.operandCount op.kind (rest.length + 1))

/-- The verdict on operands that all have values. -/
def judge (s : Scope σ) (op : Operation) : List Operand → Act σ Verdict
  | [] => throw (.operandCount op.kind 0)
  | target :: rest =>
    match if target.isNil then op.onNil s.emptyResult target else none with
    | some verdict => pure verdict
    | none => op.resolve s target rest

end Operation

end Dispatch
