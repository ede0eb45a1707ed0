import Mathlib.Tactic.Tauto
import Dispatch.Proofs.SmallHost
import Dispatch.Proofs.Verdict

/-!
# Calling values

Where arguments are matched with formal parameters by what is seen of them, a call is decided by the
formal list, the return type, and the views of the operands. The guard of its rule records the types
of the operands and, of the function, the return type alone if the formal list is the declared one,
and who it is otherwise.

That is enough to tell functions apart whose formal lists are declared, but not from functions whose
lists are others; and the rule that refuses a value that is no function does not tell it from a
function of its type. Such pairs are `Mistakable`, and a call site is transparent just if it keeps
no rules, or if its mistakes make no difference (`calling_transparent_iff`).

In the runtime: `InvokeBinder.bind` with `callable_guard`, replayed by `CallSite.execute`.
-/

namespace Dispatch

variable {σ : Type}

open Operand (View view)

/-- How arguments are matched with formal parameters, from what is seen of them. -/
abbrev Matching :=
  List (Param Ty) → CallShape → List View → (List Fragment → Fragment) → Resolution

/-- A resolver that matches arguments from what is seen of them. -/
def Resolver.Matches (r : Resolver σ) (matching : Matching) : Prop :=
  ∀ formal call args invoke,
    r.bindParameters formal call args invoke = pure (matching formal call (args.map view) invoke)

/-- The handles in a value that a call depends on. -/
def Value.handles : Value → List Ty
  | .callable c => c.type :: c.returns :: c.params.map Param.type
  | v => [v.type]

/-- The number of a type says which handle it is, and an identity says which function. -/
structure CoherentCalls (V : List Value → Prop) : Prop where
  handles : ∀ u w, V u → V w → ∀ x ∈ u, ∀ y ∈ w, ∀ s ∈ x.handles, ∀ t ∈ y.handles,
    s.id = t.id → s = t
  callables : ∀ u w, V u → V w → ∀ c d : Callable, .callable c ∈ u → .callable d ∈ w →
    c.identity = d.identity → c = d

theorem CoherentCalls.mono {V W : List Value → Prop} (h : CoherentCalls W)
    (hVW : ∀ v, V v → W v) : CoherentCalls V :=
  ⟨fun u w hu hw => h.handles u w (hVW u hu) (hVW w hw),
    fun u w hu hw => h.callables u w (hVW u hu) (hVW w hw)⟩

/-- Rows of values made with some types and some functions, of which no two are one. -/
theorem coherentCalls_of_nodup {types : List Ty} {functions : List Callable}
    (htypes : (types.map Ty.id).Nodup) (hfunctions : (functions.map Callable.identity).Nodup) :
    CoherentCalls fun v =>
      ∀ y ∈ v, (∀ t ∈ y.handles, t ∈ types) ∧ ∀ c, y = .callable c → c ∈ functions where
  handles _ _ hu hw y hy z hz s hs t ht :=
    List.inj_on_of_nodup_map htypes ((hu y hy).1 s hs) ((hw z hz).1 t ht)
  callables _ _ hu hw c d hc hd :=
    List.inj_on_of_nodup_map hfunctions ((hu _ hc).2 c rfl) ((hw _ hd).2 d rfl)

theorem Value.callable?_eq_some {v : Value} {c : Callable} :
    v.callable? = some c ↔ v = .callable c := by
  cases v <;> simp [Value.callable?]

theorem Value.type_mem_handles (v : Value) : v.type ∈ v.handles := by
  cases v <;> exact List.mem_cons_self ..

theorem CoherentCalls.coherent {V : List Value → Prop} (h : CoherentCalls V) : Coherent V :=
  fun u w hu hw x hx y hy =>
    h.handles u w hu hw x hx y hy x.type x.type_mem_handles y.type y.type_mem_handles

/-- A value whose rule may be used on another value, although it was not made for it: a value that
is no function before a function of its type, or a function with the declared parameters before one
with other parameters. -/
def Mistakable (x y : Value) : Prop :=
  x.isNil = false ∧ x.mark = y.mark ∧
    ((x.callable? = none ∧ ∃ d, y = .callable d) ∨
      ∃ c d, x = .callable c ∧ y = .callable d ∧ c.formalIsDeclared = true ∧
        d.formalIsDeclared = false ∧ c.returns.id = d.returns.id)

section Verdicts

variable (matching : Matching) (empty : Value) (call : CallShape)

/-- The verdict on a call of the first value with the others. -/
def callVerdict : List Value → Verdict
  | [] => .refused default
  | target :: args =>
    if target.isNil then (Operation.invoke call).refuse .calledNil (.isNil 0)
    else match target.callable? with
      | none => (Operation.invoke call).refuse (.notCallable target.type.name)
        (.ofOperands ((target :: args).map .known))
      | some c => (Operation.invoke call).settle
        ((Guard.ofOperands ((target :: args).map .known)).merge c.guard) (·.returningResult empty)
        (matching c.formal call ((args.map .known).map view)
          (.invoke (.operand 0 c.type) · c.returns))

/-- The code for a call of the first value with the others. -/
def callCode (row : List Value) : Fragment :=
  ((callVerdict matching empty call row).rule none).fragment

/-- Where one value may be mistaken for another, calls of the two come to the same code. -/
def MistakesHarmless (V : List Value → Prop) : Prop :=
  ∀ x args y args', V (x :: args) → V (y :: args') → args.length = call.count →
    args'.length = call.count → args.map Value.mark = args'.map Value.mark → Mistakable x y →
    callCode matching empty call (x :: args) = callCode matching empty call (y :: args')

end Verdicts

variable {matching : Matching} {empty : Value} {call : CallShape}

theorem callVerdict_of_nil {target : Value} (hnil : target.isNil = true) (args : List Value) :
    callVerdict matching empty call (target :: args) =
      (Operation.invoke call).refuse .calledNil (.isNil 0) :=
  if_pos hnil

theorem callVerdict_of_not_callable {target : Value} (hnil : target.isNil = false)
    (hc : target.callable? = none) (args : List Value) :
    callVerdict matching empty call (target :: args) =
      (Operation.invoke call).refuse (.notCallable target.type.name)
        (.ofOperands ((target :: args).map .known)) := by
  rw [callVerdict, hnil, hc]
  rfl

theorem callVerdict_callable (c : Callable) (args : List Value) :
    callVerdict matching empty call (.callable c :: args) =
      (Operation.invoke call).settle
        ((Guard.ofOperands ((Value.callable c :: args).map .known)).merge c.guard)
        (·.returningResult empty)
        (matching c.formal call ((args.map .known).map view)
          (.invoke (.operand 0 c.type) · c.returns)) :=
  rfl

/-- With a resolver that matches the verdict on a call is the one of its answer. -/
theorem judge_invoke {s : Scope σ} (hr : s.resolver.Matches matching) (target : Value)
    (args : List Value) :
    (Operation.invoke call).judge s ((target :: args).map .known) =
      pure (callVerdict matching s.emptyResult call (target :: args)) := by
  rw [List.map_cons, Operation.judge, Operand.isNil_known]
  cases hnil : target.isNil with
  | true =>
    rw [callVerdict_of_nil hnil]
    rfl
  | false =>
    simp only [Bool.false_eq_true, if_false, Operation.resolve, Operation.judgeCall,
      Operand.callable?_known]
    cases hc : target.callable? with
    | none =>
      rw [callVerdict_of_not_callable hnil hc, Operand.limitType_known, hnil]
      rfl
    | some c =>
      obtain rfl := Value.callable?_eq_some.mp hc
      simp only [hr c.formal, pure_bind]
      rfl

/-- The rule of a call of nil is for calls of nil. -/
theorem applies_callVerdict_of_nil {x y : Value} (hnil : x.isNil = true) (args args' : List Value) :
    ((callVerdict matching empty call (x :: args)).rule none).applies (y :: args') = y.isNil := by
  rw [callVerdict_of_nil hnil]
  exact Operation.check_isNil_cons y args'

/-- The rule that refuses to call a value goes by types alone. -/
theorem applies_callVerdict_of_not_callable {x y : Value} {args args' : List Value}
    (hnil : x.isNil = false) (hc : x.callable? = none) (hn : args.length = args'.length) :
    ((callVerdict matching empty call (x :: args)).rule none).applies (y :: args') = true ↔
      x.mark = y.mark ∧ args.map Value.mark = args'.map Value.mark := by
  rw [callVerdict_of_not_callable hnil hc]
  exact Guard.check_ofOperands_cons hn

/-- The rule for a call of a function goes by types, and by what the function's guard says. -/
theorem applies_callVerdict_callable {c : Callable} {y : Value} {args args' : List Value}
    (hn : args.length = args'.length) :
    ((callVerdict matching empty call (.callable c :: args)).rule none).applies (y :: args') = true
      ↔ ((Value.callable c).mark = y.mark ∧ args.map Value.mark = args'.map Value.mark) ∧
        c.guard.check (y :: args') = true := by
  rw [callVerdict_callable, Rule.applies, Operation.guard_settle, Guard.check_merge,
    Bool.and_eq_true, Guard.check_ofOperands_cons hn]

/-- The guard of a function with the declared parameters is about its return type. -/
theorem Callable.check_guard_of_declared {c : Callable} (hc : c.formalIsDeclared = true) {y : Value}
    {args : List Value} :
    c.guard.check (y :: args) = true ↔ ∃ d, y = .callable d ∧ d.returns.id = c.returns.id := by
  rw [Callable.guard, if_pos hc]
  show (y.callable?.any (·.returns == c.returns) && true) = true ↔ _
  rw [Bool.and_true]
  cases y <;> simp [Value.callable?, Ty.beq_iff]

/-- The guard of a function with other parameters is who it is. -/
theorem Callable.check_guard_of_not_declared {c : Callable} (hc : c.formalIsDeclared = false)
    {y : Value} {args : List Value} :
    c.guard.check (y :: args) = true ↔ ∃ d, y = .callable d ∧ d.identity = c.identity := by
  rw [Callable.guard, if_neg (by rw [hc]; exact Bool.false_ne_true)]
  show (y.callable?.any (·.same c) && true) = true ↔ _
  rw [Bool.and_true]
  cases y <;> simp [Value.callable?, Callable.same]

theorem Param.beq_iff {p q : Param Ty} :
    (p == q) = true ↔ p.name = q.name ∧ p.type.id = q.type.id := by
  cases p
  cases q
  show (_ && _) = true ↔ _
  rw [Bool.and_eq_true, beq_iff_eq, Ty.beq_iff]

/-- Lists of parameters that are both equal to a third are the same if no two handles on their types
have one number. -/
theorem params_eq_of_beq {declared ps qs : List (Param Ty)}
    (hhandles : ∀ p ∈ ps, ∀ q ∈ qs, p.type.id = q.type.id → p.type = q.type)
    (hps : (declared == ps) = true) (hqs : (declared == qs) = true) : ps = qs := by
  induction declared generalizing ps qs with
  | nil =>
    cases ps with
    | cons p ps => exact absurd hps Bool.false_ne_true
    | nil =>
      cases qs with
      | cons q qs => exact absurd hqs Bool.false_ne_true
      | nil => rfl
  | cons d declared ih =>
    cases ps with
    | nil => exact absurd hps Bool.false_ne_true
    | cons p ps =>
      cases qs with
      | nil => exact absurd hqs Bool.false_ne_true
      | cons q qs =>
        rw [List.cons_beq_cons, Bool.and_eq_true, Param.beq_iff] at hps hqs
        have htype : p.type = q.type :=
          hhandles p (List.mem_cons_self ..) q (List.mem_cons_self ..)
            (hps.1.2.symm.trans hqs.1.2)
        have hname : p.name = q.name := hps.1.1.symm.trans hqs.1.1
        have htail : ps = qs := ih
          (fun p hp q hq => hhandles p (List.mem_cons_of_mem _ hp) q (List.mem_cons_of_mem _ hq))
          hps.2 hqs.2
        rw [htail]
        congr 1
        cases p
        cases q
        cases htype
        cases hname
        rfl

/-- Functions of one type that have the declared parameters have the same. -/
theorem Callable.formal_eq_of_declared {c d : Callable} (htype : c.type = d.type)
    (hc : c.formalIsDeclared = true) (hd : d.formalIsDeclared = true)
    (hhandles : ∀ p ∈ c.params, ∀ q ∈ d.params, p.type.id = q.type.id → p.type = q.type) :
    c.formal = d.formal := by
  unfold Callable.formalIsDeclared at hc hd
  rw [← htype] at hd
  cases hdeclared : c.type.signature with
  | none => rw [hdeclared] at hc; exact absurd hc Bool.false_ne_true
  | some declared =>
    rw [hdeclared, Option.any_some] at hc hd
    exact params_eq_of_beq (fun p hp q hq => hhandles p (c.formal_isSuffix.mem hp) q
      (d.formal_isSuffix.mem hq)) hc hd

theorem callCode_eq_of_callable {c d : Callable} {args args' : List Value}
    (htype : c.type = d.type) (hformal : c.formal = d.formal) (hreturns : c.returns = d.returns)
    (hargs : (args.map .known).map view = (args'.map .known).map view) :
    callCode matching empty call (.callable c :: args) =
      callCode matching empty call (.callable d :: args') := by
  rw [callCode, callCode, callVerdict_callable, callVerdict_callable, htype, hformal, hreturns,
    hargs]
  cases matching d.formal call ((args'.map .known).map view)
    (.invoke (.operand 0 d.type) · d.returns) <;> rfl

namespace Engine

variable {host : Host σ} {index : Nat} {e : Engine σ} {s : Site} {x : Backdrop}
  {V : List Value → Prop}

theorem view_args_eq (hV : Coherent V) {y z : Value} {args args' : List Value}
    (hu : V (y :: args)) (hw : V (z :: args')) (hmark : y.mark = z.mark)
    (hargs : args.map Value.mark = args'.map Value.mark) :
    (args.map .known).map view = (args'.map .known).map view := by
  have hviews := Operand.view_map_known_eq hV hu hw
    (by rw [List.map_cons, List.map_cons, hmark, hargs])
  simp only [List.map_cons, List.cons.injEq] at hviews
  exact hviews.2

/-- Functions with the declared parameters are told apart by their types and return types. -/
theorem callCode_eq_of_declared (hV : CoherentCalls V) {c d : Callable} {args args' : List Value}
    (hu : V (.callable c :: args)) (hw : V (.callable d :: args'))
    (hmark : (Value.callable c).mark = (Value.callable d).mark)
    (hargs : args.map Value.mark = args'.map Value.mark) (hc : c.formalIsDeclared = true)
    (hd : d.formalIsDeclared = true) (hreturns : c.returns.id = d.returns.id) :
    callCode matching empty call (.callable c :: args) =
      callCode matching empty call (.callable d :: args') := by
  have hhandles : ∀ s ∈ (Value.callable c).handles, ∀ t ∈ (Value.callable d).handles,
      s.id = t.id → s = t :=
    hV.handles _ _ hu hw _ (List.mem_cons_self ..) _ (List.mem_cons_self ..)
  have htype : c.type = d.type :=
    hhandles c.type (by simp [Value.handles]) d.type (by simp [Value.handles])
      (Option.some.inj hmark)
  have hreturned : c.returns = d.returns :=
    hhandles c.returns (by simp [Value.handles]) d.returns (by simp [Value.handles]) hreturns
  have hformal : c.formal = d.formal := by
    refine Callable.formal_eq_of_declared htype hc hd fun p hp q hq => ?_
    have hpm : p.type ∈ (Value.callable c).handles :=
      List.mem_cons_of_mem _ (List.mem_cons_of_mem _ (List.mem_map_of_mem hp))
    have hqm : q.type ∈ (Value.callable d).handles :=
      List.mem_cons_of_mem _ (List.mem_cons_of_mem _ (List.mem_map_of_mem hq))
    exact hhandles p.type hpm q.type hqm
  exact callCode_eq_of_callable htype hformal hreturned (view_args_eq hV.coherent hu hw hmark hargs)

/-- A rule for a call that applies to a row is as good as the row's own, unless one value is
mistaken for the other. -/
theorem callCode_eq_of_applies (hV : CoherentCalls V)
    (h : MistakesHarmless matching empty call V) {y z : Value} {args args' : List Value}
    (hu : V (y :: args)) (hw : V (z :: args')) (hn : args.length = call.count)
    (hn' : args'.length = call.count)
    (happlies :
      ((callVerdict matching empty call (y :: args)).rule none).applies (z :: args') = true) :
    callCode matching empty call (y :: args) = callCode matching empty call (z :: args') := by
  have hlen : args.length = args'.length := hn.trans hn'.symm
  cases hnil : y.isNil with
  | true =>
    rw [applies_callVerdict_of_nil hnil] at happlies
    rw [callCode, callCode, callVerdict_of_nil hnil, callVerdict_of_nil happlies]
  | false =>
    cases hcallable : y.callable? with
    | none =>
      obtain ⟨hmark, hargs⟩ := (applies_callVerdict_of_not_callable hnil hcallable hlen).mp happlies
      have htype : y.type = z.type :=
        hV.coherent _ _ hu hw y (List.mem_cons_self ..) z (List.mem_cons_self ..)
          (Value.typeId_eq_of_mark hmark hnil)
      cases hz : z.callable? with
      | none =>
        have hznil : z.isNil = false := Value.isNil_eq_of_mark hmark ▸ hnil
        rw [callCode, callCode, callVerdict_of_not_callable hnil hcallable,
          callVerdict_of_not_callable hznil hz, htype]
        rfl
      | some d =>
        -- a function would be refused like the value that is none
        exact h y args z args' hu hw hn hn' hargs
          ⟨hnil, hmark, .inl ⟨hcallable, d, Value.callable?_eq_some.mp hz⟩⟩
    | some c =>
      obtain rfl := Value.callable?_eq_some.mp hcallable
      obtain ⟨⟨hmark, hargs⟩, hguard⟩ := (applies_callVerdict_callable hlen).mp happlies
      cases hc : c.formalIsDeclared with
      | true =>
        obtain ⟨d, rfl, hreturns⟩ := (Callable.check_guard_of_declared hc).mp hguard
        cases hd : d.formalIsDeclared with
        | true => exact callCode_eq_of_declared hV hu hw hmark hargs hc hd hreturns.symm
        | false =>
          -- a function with other parameters would be called through the declared ones
          exact h _ args _ args' hu hw hn hn' hargs
            ⟨hnil, hmark, .inr ⟨c, d, rfl, rfl, hc, hd, hreturns.symm⟩⟩
      | false =>
        -- the rule is for this very function
        obtain ⟨d, rfl, hidentity⟩ := (Callable.check_guard_of_not_declared hc).mp hguard
        obtain rfl : c = d := hV.callables _ _ hu hw c d (List.mem_cons_self ..)
          (List.mem_cons_self ..) hidentity.symm
        exact callCode_eq_of_callable rfl rfl rfl (view_args_eq hV.coherent hu hw hmark hargs)

/-- The rule for a call of one value applies to a call of a value that it may be mistaken for. -/
theorem applies_of_mistakable {y z : Value} {args args' : List Value}
    (hargs : args.map Value.mark = args'.map Value.mark) (h : Mistakable y z) :
    ((callVerdict matching empty call (y :: args)).rule none).applies (z :: args') = true := by
  have hlen : args.length = args'.length := by
    rw [← List.length_map (f := Value.mark), hargs, List.length_map]
  obtain ⟨hnil, hmark, ⟨hcallable, -⟩ | ⟨c, d, rfl, rfl, hc, -, hreturns⟩⟩ := h
  · exact (applies_callVerdict_of_not_callable hnil hcallable hlen).mpr ⟨hmark, hargs⟩
  · exact (applies_callVerdict_callable hlen).mpr
      ⟨⟨hmark, hargs⟩, (Callable.check_guard_of_declared hc).mpr ⟨d, rfl, hreturns.symm⟩⟩

theorem applies_callVerdict_self {y : Value} {args : List Value} :
    ((callVerdict matching empty call (y :: args)).rule none).applies (y :: args) = true := by
  cases hnil : y.isNil with
  | true => rw [applies_callVerdict_of_nil hnil, hnil]
  | false =>
    cases hcallable : y.callable? with
    | none => exact (applies_callVerdict_of_not_callable hnil hcallable rfl).mpr ⟨rfl, rfl⟩
    | some c =>
      obtain rfl := Value.callable?_eq_some.mp hcallable
      exact (applies_callVerdict_callable rfl).mpr ⟨⟨rfl, rfl⟩, Callable.check_guard c args⟩

/-- A call site for calls of values is transparent if it keeps no rules, or if mistakes are
harmless; and where routines leave it alone, only then. -/
theorem calling_transparent_iff (h : Unused index s x e) (hop : x.operation = .invoke call)
    (hr : (host.resolver s.binder.dispatcher).Matches matching) (hV : CoherentCalls V)
    (hc : Courteous host index s.binder V) :
    (s.maxRules = 0 ∨ MistakesHarmless matching x.emptyResult call V →
      Transparent host index s.binder (1 + call.count) V e) ∧
    ((∀ i args, Run.Within (Aside index s.binder) (host.routine i args)) →
      Transparent host index s.binder (1 + call.count) V e →
      s.maxRules = 0 ∨ MistakesHarmless matching x.emptyResult call V) := by
  have hcount : x.operation.operandCount = 1 + call.count := by rw [hop, Operation.operandCount]
  have hj : Settles host s.binder x V (callVerdict matching x.emptyResult call) := by
    intro v _ hn
    obtain ⟨y, args, rfl⟩ :=
      List.exists_cons_of_length_pos (hn ▸ x.operation.operandCount_pos)
    rw [hop]
    exact judge_invoke hr y args
  rw [← hcount]
  constructor
  · rintro (hlimit | hharmless)
    · exact transparent_of_sound h hc hj (.inl hlimit)
    · refine transparent_of_sound h hc hj (.inr fun u w hu hw hun hwn happlies => ?_)
      obtain ⟨y, args, rfl⟩ :=
        List.exists_cons_of_length_pos (hun ▸ x.operation.operandCount_pos)
      obtain ⟨z, args', rfl⟩ :=
        List.exists_cons_of_length_pos (hwn ▸ x.operation.operandCount_pos)
      rw [hcount, List.length_cons] at hun hwn
      exact callCode_eq_of_applies hV hharmless hu hw (by omega) (by omega) happlies
  · intro haside ht
    by_cases hlimit : s.maxRules = 0
    · exact .inl hlimit
    · refine .inr fun y args z args' hu hw hn hn' hargs hmistakable => ?_
      have hquiet : Run.Within (Aside index s.binder)
          (((callVerdict matching x.emptyResult call (y :: args)).rule none).run (Engine.call host)
            (y :: args)) :=
        Fragment.evaluate_within Aside.refl Aside.trans (call_within haside Aside.of_pack) _ _
      refine fragment_eq_of_transparent h hj hlimit hu hw ?_ ?_ applies_callVerdict_self
        (applies_of_mistakable hargs hmistakable) hquiet ht
      · rw [hcount, List.length_cons, hn, Nat.add_comm]
      · rw [hcount, List.length_cons, hn', Nat.add_comm]

end Engine

section Functions

/-- How the small resolver matches arguments. -/
def smallMatching : Matching := fun formal _ args invoke =>
  if formal.length = args.length then
    .ok (invoke (args.mapIdx fun i arg => .operand (i + 1) arg.limitType))
  else .error (.parameterMismatch "invoke" args.length)

theorem smallResolver_matches : (smallResolver : Resolver σ).Matches smallMatching := by
  intro formal call args invoke
  have hread : (args.mapIdx fun i arg => arg.read (i + 1)) =
      (args.map view).mapIdx fun i arg => Fragment.operand (i + 1) arg.limitType := by
    refine List.ext_getElem (by simp) fun i hi hi' => ?_
    simp [Operand.read, view]
  rw [smallMatching, List.length_map, ← hread]
  show (if formal.length = args.length then _ else _) = _
  split <;> rfl

/-- A type of functions of an integer. -/
def unaryType : Ty :=
  .delegate 256 "Unary" "Test.Unary" [⟨"x", .integer⟩]

/-- A function with the parameter that its type declares. -/
def full : Callable :=
  .declared ⟨1⟩ "full" unaryType .integer (.native 0)

/-- A function of the same type without parameters. -/
def short : Callable :=
  ⟨⟨2⟩, "short", unaryType, [], .integer, .native 0⟩

/-- A function whose type declares no parameters. -/
def untyped : Callable :=
  ⟨⟨3⟩, "untyped", .function, [⟨"x", .integer⟩], .integer, .native 0⟩

/-- An object of the host whose type is that of functions. -/
def handle : Value :=
  .object ⟨⟨4⟩, .function⟩

/-- Calls of some values with an integer. -/
def CallsOf (targets : List Value) (v : List Value) : Prop :=
  ∃ y ∈ targets, ∃ i, v = [y, .integer i]

theorem coherentCalls_callsOf :
    CoherentCalls (CallsOf [.nil, handle, .callable full, .callable short, .callable untyped]) := by
  refine (coherentCalls_of_nodup
    (by decide : ([Ty.object, .integer, .function, unaryType].map Ty.id).Nodup)
    (by decide : ([full, short, untyped].map Callable.identity).Nodup)).mono ?_
  rintro _ ⟨y, hy, i, rfl⟩ z hz
  simp only [List.mem_cons, List.not_mem_nil, or_false] at hy hz
  rcases hz with rfl | rfl
  · rcases hy with rfl | rfl | rfl | rfl | rfl <;>
      simp [Value.handles, Value.type, handle, full, short, untyped, Callable.declared, unaryType,
        Ty.delegate]
  · simp [Value.handles, Value.type]

/-- Nil and a function with the declared parameters are not mistaken for each other. -/
theorem calling_transparent_declared :
    Engine.Transparent smallHost 0 ⟨0, 0⟩ 2 (CallsOf [.nil, .callable full])
      (smallEngine (.invoke (.positional 1)) 4) := by
  have hV : CoherentCalls (CallsOf [.nil, .callable full]) := by
    refine coherentCalls_callsOf.mono ?_
    rintro _ ⟨y, hy, i, rfl⟩
    refine ⟨y, ?_, i, rfl⟩
    simp only [List.mem_cons, List.not_mem_nil, or_false] at hy ⊢
    tauto
  refine (Engine.calling_transparent_iff (Engine.unused_smallEngine (.invoke (.positional 1)) 4) rfl
    smallResolver_matches hV (Engine.smallHost_courteous _ _ _)).1 (.inr ?_)
  rintro y args z args' ⟨_, hy, i, hrow⟩ ⟨_, hz, j, hrow'⟩ - - - ⟨hnil, hmark, hmistaken⟩
  cases hrow
  cases hrow'
  simp only [List.mem_cons, List.not_mem_nil, or_false] at hy hz
  rcases hy with rfl | rfl
  · cases hnil
  · rcases hz with rfl | rfl
    · cases hmark
    · rfl

/-- A function without parameters is called with an argument after one that takes it, and no
function is called after a value of its type that is none. -/
theorem not_transparent_of_mistaken :
    (smallResolver : Resolver (Engine Unit)).Matches smallMatching ∧
    CoherentCalls (CallsOf [.nil, handle, .callable full, .callable short, .callable untyped]) ∧
    Engine.outcomes smallHost 0 (smallEngine (.invoke (.positional 1)) 4)
        [.execute [.callable short, .integer 7]] =
      [.ok (some (.error (.raised "no overload of 'invoke' accepts 1 argument(s)")))] ∧
    Engine.outcomes smallHost 0 (smallEngine (.invoke (.positional 1)) 4)
        [.execute [.callable full, .integer 7], .execute [.callable short, .integer 7]] =
      [.ok (some (.ok (.result ⟨0⟩ [.integer 7]))), .ok (some (.ok (.result ⟨1⟩ [.integer 7])))] ∧
    Engine.outcomes smallHost 0 (smallEngine (.invoke (.positional 1)) 4)
        [.execute [.callable untyped, .integer 7]] =
      [.ok (some (.ok (.result ⟨0⟩ [.integer 7])))] ∧
    Engine.outcomes smallHost 0 (smallEngine (.invoke (.positional 1)) 4)
        [.execute [handle, .integer 7], .execute [.callable untyped, .integer 7]] =
      [.ok (some (.error (.raised "type 'function' is not callable"))),
        .ok (some (.error (.raised "type 'function' is not callable")))] ∧
    ¬ Engine.Transparent smallHost 0 ⟨0, 0⟩ 2 (CallsOf [.callable full, .callable short])
      (smallEngine (.invoke (.positional 1)) 4) ∧
    ¬ Engine.Transparent smallHost 0 ⟨0, 0⟩ 2 (CallsOf [handle, .callable untyped])
      (smallEngine (.invoke (.positional 1)) 4) := by
  have hrow : ∀ {targets : List Value} {y : Value}, y ∈ targets →
      CallsOf targets [y, .integer 7] ∧ [y, Value.integer 7].length = 2 :=
    fun hy => ⟨⟨_, hy, 7, rfl⟩, rfl⟩
  refine ⟨smallResolver_matches, coherentCalls_callsOf, rfl, rfl, rfl, rfl, ?_, ?_⟩
  · exact Engine.not_transparent_of_kept (hrow (List.mem_cons_self ..))
      (hrow (List.mem_cons_of_mem _ (List.mem_cons_self ..))) rfl rfl (fun h => nomatch h)
  · exact Engine.not_transparent_of_kept (hrow (List.mem_cons_self ..))
      (hrow (List.mem_cons_of_mem _ (List.mem_cons_self ..))) rfl rfl (fun h => nomatch h)

end Functions

end Dispatch
