import Dispatch.Proofs.Question
import Dispatch.Proofs.TypedReplay

/-!
# What calls return

Calls promise result lists. The resolver's fragment for a call may be declared to produce anything,
and what becomes of its value goes by that declaration (`Fragment.Delivers`): where nothing is
declared there is the one empty list of the dispatcher, what is declared as a list is taken for one,
and any other value comes in a list of its own unless it is a list already.

To take a list for granted is a matter of trust. Nil is among the values of the type of result
lists, so a function that is declared to return a list may return nil, and then nil is what the call
delivers (`declared_list_bare`). By the main statement, `call_delivers`, this is all that gets
through: where a call delivers no list, its fragment was declared to produce one and did not.

In the runtime: `ensure_result`, in `InvokeBinder.bind` and `InvokeMemberBinder.bind`.
-/

namespace Dispatch

variable {σ : Type}

/-- What a call delivers if its fragment `f` produced `y`. For no values there is the list `empty`,
and a new list gets a storage of its own. -/
inductive Fragment.Delivers (f : Fragment) (empty y : Value) (storage : Identity) : Value → Prop
  /-- What is declared as a list is taken for one. -/
  | declared : (f.type == .result) = true → Delivers f empty y storage y
  | nothing : f.type.isVoid = true → Delivers f empty y storage empty
  | list : (f.type == .result) = false → f.type.isVoid = false → y.result?.isSome = true →
    Delivers f empty y storage y
  | single : (f.type == .result) = false → f.type.isVoid = false → y.result? = none →
    Delivers f empty y storage (.result storage [y])

/-- A slot for result lists takes those, nil, and what passes for one. -/
theorem Ty.eq_nil_or_result_of_accepts {t : Ty} {v : Value} (ht : (t == .result) = true)
    (h : t.accepts v = true) : v = .nil ∨ (v.type == .result) = true := by
  have hid : t.id = Ty.result.id := Ty.beq_iff.mp ht
  have hobject : ¬ t.isObject = true := by
    intro hobject
    exact absurd (hid.symm.trans (Ty.beq_iff.mp hobject)) (by decide)
  rw [accepts, if_neg hobject] at h
  split at h
  next hnil =>
    refine .inl ?_
    cases v <;> first | rfl | cases hnil
  next => exact .inr (BEq.trans h ht)

theorem Ty.beq_result_of_isVoid {t : Ty} (h : t.isVoid = true) : (t == .result) = false := by
  have hid : t.id = Ty.void.id := Ty.beq_iff.mp h
  rw [Bool.eq_false_iff]
  intro hlist
  exact absurd (hid.symm.trans (Ty.beq_iff.mp hlist)) (by decide)

namespace Fragment

variable {host : Host σ} {f : Fragment} {empty y v : Value} {storage : Identity}

theorem returningResult_of_list (h : (f.type == .result) = true) : f.returningResult empty = f :=
  if_pos h

/-- A void fragment runs once, for its effect, and then there is the empty list. -/
theorem evaluate_returningResult_of_void (h : f.type.isVoid = true) (operands : List Value) :
    (f.returningResult empty).evaluate (Engine.call host) operands = (do
      let _ ← f.evaluate (Engine.call host) operands
      pure empty) := by
  rw [returningResult, if_neg (Bool.eq_false_iff.mp (Ty.beq_result_of_isVoid h)), if_pos h]
  rfl

/-- The value of any other fragment is packed. -/
theorem evaluate_returningResult_of_other (hlist : (f.type == .result) = false)
    (hvoid : f.type.isVoid = false) (operands : List Value) :
    (f.returningResult empty).evaluate (Engine.call host) operands = (do
      let y ← f.evaluate (Engine.call host) operands
      liftM (Engine.pack (σ := σ) [y])) := by
  rw [returningResult, if_neg (Bool.eq_false_iff.mp hlist), if_neg (Bool.eq_false_iff.mp hvoid)]
  simp only [evaluate, evaluateAll, bind_assoc, pure_bind]
  rfl

/-- What is declared as a list is delivered as it is. -/
theorem Delivers.eq_of_list (h : f.Delivers empty y storage v) (hlist : (f.type == .result) = true) :
    v = y := by
  cases h with
  | declared | list => rfl
  | nothing hvoid => cases hlist.symm.trans (Ty.beq_result_of_isVoid hvoid)
  | single hother => cases hlist.symm.trans hother

/-- A call delivers no list just if its fragment is declared to produce one and did not. -/
theorem Delivers.bare_iff (hempty : empty.result? = some []) (h : f.Delivers empty y storage v) :
    v.result? = none ↔ (f.type == .result) = true ∧ y.result? = none := by
  constructor
  · intro hv
    cases h with
    | declared hlist => exact ⟨hlist, hv⟩
    | nothing => cases hempty.symm.trans hv
    | list _ _ hy =>
      rw [hv] at hy
      cases hy
    | single => cases hv
  · intro ⟨hlist, hy⟩
    rw [h.eq_of_list hlist]
    exact hy

end Fragment

namespace Engine

variable {host : Host σ} {e t u s s' : Engine σ} {b : BinderRef} {d : Dispatcher} {binder : Binder}
  {target : Operand} {rest : List Operand} {fallback : Option Rule} {q : Question} {a : q.Answer}
  {f : Fragment} {r : Rule} {w : List Value} {v y : Value}

/-- A list is packed as it is, and any other value in a list of its own. -/
theorem packed_of_exec
    (h : (liftM (pack (σ := σ) [y]) : Run (Engine σ) Value).exec s = (.ok (.ok v), s')) :
    (y.result?.isSome = true ∧ v = y) ∨ (y.result? = none ∧ v = .result ⟨s.fresh⟩ [y]) := by
  rw [Run.exec_lift] at h
  cases y with
  | result storage values =>
    cases h
    exact .inl ⟨rfl, rfl⟩
  | _ =>
    cases h
    exact .inr ⟨rfl, rfl⟩

/-- The rule that is bound on an answer of the resolver performs the fragment in it, made to fit. -/
theorem rule_of_answered (hd : e.dispatchers[b.dispatcher]? = some d)
    (hb : d.binders[b.binder]? = some binder)
    (hbind : (bind host b (target :: rest) fallback).exec e = (.ok (.bound r), t))
    (hq : binder.operation.Asks d.types (target :: rest) q)
    (ha : ((host.resolver b.dispatcher).answer (target :: rest) q).exec e = (.ok a, u))
    (hf : q.fragment? a = some f) :
    r = ⟨binder.operation.fit d.emptyResult f, binder.operation.fullGuard target rest⟩ := by
  obtain ⟨-, verdict, u', hverdict, rfl⟩ := judged_of_bound hd hb hbind
  have hperformed := Operation.exec_judge_of_answered
    (s := ⟨host.resolver b.dispatcher, d.types, d.emptyResult⟩) hq ha hf
  rw [hperformed] at hverdict
  cases hverdict
  rfl

theorem fit_of_call {op : Operation} (h : op.kind = .invoke ∨ op.kind = .invokeMember)
    (empty : Value) (f : Fragment) : op.fit empty f = f.returningResult empty := by
  rcases h with h | h
  · cases op <;> first | rfl | cases h
  · cases op <;> first | rfl | cases h

/-- What a fragment of a call delivers, by what it is declared to produce. -/
theorem delivers_of_exec {empty : Value}
    (h : ((f.returningResult empty).evaluate (call host) w).exec s = (.ok (.ok v), s')) :
    ∃ y t', (f.evaluate (call host) w).exec s = (.ok (.ok y), t') ∧
      f.Delivers empty y ⟨t'.fresh⟩ v := by
  cases hlist : f.type == .result with
  | true =>
    rw [Fragment.returningResult_of_list hlist] at h
    exact ⟨v, s', h, .declared hlist⟩
  | false =>
    cases hvoid : f.type.isVoid with
    | true =>
      rw [Fragment.evaluate_returningResult_of_void hvoid, Run.exec_bind] at h
      split at h
      next y t' hy =>
        cases h
        exact ⟨y, s', hy, .nothing hvoid⟩
      next => cases h
      next => cases h
    | false =>
      rw [Fragment.evaluate_returningResult_of_other hlist hvoid, Run.exec_bind] at h
      split at h
      next y t' hy =>
        rcases packed_of_exec h with ⟨hy', rfl⟩ | ⟨hy', rfl⟩
        · exact ⟨_, t', hy, .list hlist hvoid hy'⟩
        · exact ⟨y, t', hy, .single hlist hvoid hy'⟩
      next => cases h
      next => cases h

/-- What a call delivers, by the fragment that the resolver answered with: the one empty list for a
void call, what a fragment declared to produce a list produced, and for any other one the list that
it produced, or its value in a list of its own. So no list is delivered just where one was declared
and none produced. If the fragment is made of parts that keep their promises, that is nil, or
something of the very type of result lists. -/
theorem call_delivers (hd : e.dispatchers[b.dispatcher]? = some d)
    (hb : d.binders[b.binder]? = some binder)
    (hcall : binder.operation.kind = .invoke ∨ binder.operation.kind = .invokeMember)
    (hempty : d.emptyResult.result? = some [])
    (hbind : (bind host b (target :: rest) fallback).exec e = (.ok (.bound r), t))
    (hq : binder.operation.Asks d.types (target :: rest) q)
    (ha : ((host.resolver b.dispatcher).answer (target :: rest) q).exec e = (.ok a, u))
    (hf : q.fragment? a = some f) (hrun : (r.run (call host) w).exec s = (.ok (.ok v), s')) :
    ∃ y t', (f.evaluate (call host) w).exec s = (.ok (.ok y), t') ∧
      f.Delivers d.emptyResult y ⟨t'.fresh⟩ v ∧
      (v.result? = none ↔ (f.type == .result) = true ∧ y.result? = none) ∧
      ∀ p : Parts, p.Good (call host) w → f.MadeOf p → v.result? = none →
        v = .nil ∨ (v.type == .result) = true := by
  have hr := rule_of_answered hd hb hbind hq ha hf
  rw [fit_of_call hcall] at hr
  subst hr
  obtain ⟨y, t', hy, hdelivers⟩ := delivers_of_exec hrun
  have hbare := hdelivers.bare_iff hempty
  refine ⟨y, t', hy, hdelivers, hbare, fun p hp hmade hv => ?_⟩
  obtain ⟨hlist, -⟩ := hbare.mp hv
  rw [hdelivers.eq_of_list hlist]
  exact Ty.eq_nil_or_result_of_accepts hlist
    (Fragment.evaluate_accepts hp f hmade y ⟨s, t', hy⟩)

end Engine

/-- The call of a counter, as the small resolver makes it. -/
def countingCall : Fragment :=
  .invoke (.operand 0 unaryType) [.operand 1 .integer] .integer

/-- The rule for calls of counters with an integer. -/
def countingRule : Rule :=
  ⟨countingCall.returningResult (.result ⟨0⟩ []),
    (Operation.invoke (.positional 1)).fullGuard (.known (.callable (counter 1)))
      [.known (.integer 7)]⟩

/-- Bound for one counter and run with another one, the rule delivers in a list what was counted. -/
theorem call_delivers_counting :
    ∃ t t', (Engine.bind countingHost ⟨0, 0⟩
        [.known (.callable (counter 1)), .known (.integer 7)] none).exec
          (smallEngine (.invoke (.positional 1)) 4) = (.ok (.bound countingRule), t) ∧
      (countingRule.run (Engine.call countingHost) [.callable (counter 2), .integer 5]).exec t =
        (.ok (.ok (.result ⟨t.fresh⟩ [.integer 1])), t') ∧
      ∃ y u, (countingCall.evaluate (Engine.call countingHost)
          [.callable (counter 2), .integer 5]).exec t = (.ok (.ok y), u) ∧
        countingCall.Delivers (.result ⟨0⟩ []) y ⟨u.fresh⟩ (.result ⟨t.fresh⟩ [.integer 1]) := by
  have hd : (smallEngine (.invoke (.positional 1)) 4).dispatchers[0]? = some
      { Dispatcher.new {} .initial ⟨0⟩ with
        binders := #[{ operation := .invoke (.positional 1) }] } := rfl
  obtain ⟨t, hbind⟩ : ∃ t, (Engine.bind countingHost ⟨0, 0⟩
      [.known (.callable (counter 1)), .known (.integer 7)] none).exec
        (smallEngine (.invoke (.positional 1)) 4) = (.ok (.bound countingRule), t) := ⟨_, rfl⟩
  have hasks : (Operation.invoke (.positional 1)).Asks .initial
      [.known (.callable (counter 1)), .known (.integer 7)] (.bindParameters (counter 1).formal
        (.positional 1) [.known (.integer 7)] (.invoke (.operand 0 unaryType) · .integer)) :=
    .invoke rfl
  have hrun : (countingRule.run (Engine.call countingHost)
      [.callable (counter 2), .integer 5]).exec t =
        (.ok (.ok (.result ⟨t.fresh⟩ [.integer 1])), { t with fresh := t.fresh + 1 }) := rfl
  obtain ⟨y, u, hy, hdelivers, -⟩ :=
    Engine.call_delivers hd rfl (.inl rfl) rfl hbind hasks rfl rfl hrun
  exact ⟨t, _, hbind, hrun, y, u, hy, hdelivers⟩

/-- A function that does nothing, but is declared to return a result list. -/
def idle : Callable :=
  .declared ⟨3⟩ "idle" .function .result (.native 0)

/-- The call of the idle function. -/
def idleCall : Fragment :=
  .invoke (.operand 0 .function) [] .result

/-- Declared to return a list, a function may return nil without breaking a promise, and nil is what
its call delivers. -/
theorem declared_list_bare :
    ∃ r t, (Engine.bind countingHost ⟨0, 0⟩ [.known (.callable idle)] none).exec
        (smallEngine (.invoke (.positional 0)) 4) = (.ok (.bound r), t) ∧
      ((countingHost.resolver 0).bindParameters idle.formal (.positional 0) []
        (.invoke (.operand 0 .function) · .result)).exec
          (smallEngine (.invoke (.positional 0)) 4) =
        (.ok (.ok idleCall), smallEngine (.invoke (.positional 0)) 4) ∧
      (∃ p : Parts, p.Good (Engine.call countingHost) [.callable idle] ∧ idleCall.MadeOf p) ∧
      r.applies [.callable idle] = true ∧
      (r.run (Engine.call countingHost) [.callable idle]).exec t = (.ok (.ok .nil), t) := by
  have hfunction : CountingType .function :=
    canonical_countingType.builtin _ (by simp [Ty.builtins])
  let p : Parts :=
    { type := CountingType
      body := fun _ _ => False
      read := fun i t => i = 0 ∧ t = .function
      call := fun callee t => callee = .operand 0 .function ∧ t = .result }
  have hp : p.Good (Engine.call countingHost) [.callable idle] := by
    refine ⟨canonical_countingType, False.elim, ?_, ?_⟩
    · rintro i t ⟨rfl, rfl⟩
      refine ⟨hfunction, fun v hv => ?_⟩
      cases hv
      rfl
    · rintro callee t ⟨rfl, rfl⟩
      refine ⟨canonical_countingType.result, fun v hv => ?_⟩
      rw [Fragment.evaluate] at hv
      exact ⟨idle, Run.gives_pure hv, countingHost_keeps rfl⟩
  exact ⟨_, _, rfl, rfl, ⟨p, hp, ⟨rfl, rfl⟩, ⟨rfl, rfl⟩, trivial⟩, by decide, rfl⟩

end Dispatch
