import Dispatch.Engine.Basic

/-!
# What the engine's actions do

Each action of the engine seen through `Act.exec`: what it answers, and the engine that it leaves.

Binding comes in three cases: a row of the wrong length panics before anything is asked
(`exec_bind_of_length_ne`), an operand without a value puts it off (`exec_bind_of_pending`), and
otherwise the verdict decides (`exec_bind_of_known`). A call site comes in two: a rule it kept
is found and only counted (`exec_ruleFor_of_found`), or none is and binding starts from the engine in
which the miss is counted (`exec_ruleFor_of_not_found`).

In the runtime: `Binder.bind` and `CallSite.execute`.
-/

namespace Dispatch.Engine

variable {σ : Type} {e : Engine σ} {host : Host σ}

@[simp] theorem exec_identity (e : Engine σ) :
    identity.exec e = (.ok ⟨e.fresh⟩, { e with fresh := e.fresh + 1 }) := rfl

@[simp] theorem exec_modifyDispatcher (index : Nat) (f : Dispatcher → Dispatcher) (e : Engine σ) :
    (modifyDispatcher index f).exec e =
      (.ok (), { e with dispatchers := e.dispatchers.modify index f }) := rfl

@[simp] theorem exec_modifySite (index : Nat) (f : Site → Site) (e : Engine σ) :
    (modifySite index f).exec e = (.ok (), { e with sites := e.sites.modify index f }) := rfl

/-- Packing answers with what is there already, or gives out one identity. -/
theorem exec_pack (values : List Value) :
    (∃ v, ∀ e : Engine σ, (pack values).exec e = (.ok v, e)) ∨
      ∃ vs, ∀ e : Engine σ,
        (pack values).exec e = (.ok (.result ⟨e.fresh⟩ vs), { e with fresh := e.fresh + 1 }) := by
  match values with
  | [] => exact .inr ⟨[], fun _ => rfl⟩
  | .result storage vs :: _ => exact .inl ⟨.result storage vs, fun _ => rfl⟩
  | .nil :: _ | .boolean _ :: _ | .integer _ :: _ | .number _ :: _ | .text _ :: _
  | .callable _ :: _ | .object _ :: _ => exact .inr ⟨[_], fun _ => rfl⟩

theorem exec_dispatcher {index : Nat} {d : Dispatcher} (hd : e.dispatchers[index]? = some d) :
    (dispatcher index).exec e = (.ok d, e) := by
  rw [dispatcher, Act.exec_bind_ok (Act.exec_get e), hd]
  rfl

theorem exec_site {index : Nat} {s : Site} (hs : e.sites[index]? = some s) :
    (site index).exec e = (.ok s, e) := by
  rw [site, Act.exec_bind_ok (Act.exec_get e), hs]
  rfl

theorem exec_binder {b : BinderRef} {d : Dispatcher} {binder : Binder}
    (hd : e.dispatchers[b.dispatcher]? = some d) (hb : d.binders[b.binder]? = some binder) :
    (Engine.binder b).exec e = (.ok binder, e) := by
  rw [Engine.binder, Act.exec_bind_ok (exec_dispatcher hd), hb]
  rfl

theorem exec_onDispatcher {α : Type} {index : Nat} {d : Dispatcher}
    (hd : e.dispatchers[index]? = some d) (f : Dispatcher → α × Dispatcher) :
    (onDispatcher index f).exec e =
      (.ok (f d).1, { e with dispatchers := e.dispatchers.modify index fun _ => (f d).2 }) := by
  rw [onDispatcher, Act.exec_bind_ok (exec_dispatcher hd)]
  rfl

theorem exec_onDispatcher_of_none {α : Type} {index : Nat} (hd : e.dispatchers[index]? = none)
    (f : Dispatcher → α × Dispatcher) :
    (onDispatcher index f).exec e = (.error (.unknownDispatcher index), e) := by
  rw [onDispatcher, dispatcher, Act.exec_bind_error]
  rw [Act.exec_bind_ok (Act.exec_get e), hd]
  rfl

section Binding

variable {b : BinderRef} {d : Dispatcher} {binder : Binder} {operands : List Operand}
  {fallback : Option Rule}

/-- An operand without a value puts binding off and asks nothing. -/
theorem exec_bindCounted_of_pending (hd : e.dispatchers[b.dispatcher]? = some d)
    (hb : d.binders[b.binder]? = some binder) (hp : Operand.pending operands ≠ []) :
    (bindCounted host b operands fallback).exec e =
      (.ok (.deferred (Operand.pending operands)),
        { e with
          dispatchers :=
            e.dispatchers.modify b.dispatcher (·.modifyTally b.binder (·.countDeferral)) }) := by
  rw [bindCounted, Act.exec_bind_ok (exec_binder hd hb)]
  cases h : Operand.pending operands with
  | nil => exact absurd h hp
  | cons i is => rfl

/-- With all values there, the verdict decides, and whoever is due the credit counts the rule. -/
theorem exec_bindCounted_of_known (hd : e.dispatchers[b.dispatcher]? = some d)
    (hb : d.binders[b.binder]? = some binder) (hp : Operand.pending operands = []) :
    (bindCounted host b operands fallback).exec e =
      match (binder.operation.judge ⟨host.resolver b.dispatcher, d.types, d.emptyResult⟩
          operands).exec e with
      | (.ok verdict, t) =>
        (.ok (.bound (verdict.rule fallback)),
          { t with
            dispatchers := t.dispatchers.modify b.dispatcher fun d =>
              d.modifyTally (binder.creditee b.binder operands)
                (·.countRule (verdict.rule fallback)) })
      | (.error p, t) => (.error p, t) := by
  rw [bindCounted, Act.exec_bind_ok (exec_binder hd hb), hp]
  dsimp only
  rw [Act.exec_bind_ok (exec_dispatcher hd), Act.exec_bind]
  split
  next h => rw [h]; rfl
  next h => rw [h]

/-- A row of operands of the wrong length panics and asks nothing. -/
theorem exec_bind_of_length_ne (hd : e.dispatchers[b.dispatcher]? = some d)
    (hb : d.binders[b.binder]? = some binder)
    (hn : operands.length ≠ binder.operation.operandCount) :
    (bind host b operands fallback).exec e =
      (.error (.operandCount binder.operation.kind operands.length), e) := by
  rw [bind, Act.exec_bind_ok (exec_binder hd hb), if_neg hn]
  rfl

theorem exec_bind_of_length_eq (hd : e.dispatchers[b.dispatcher]? = some d)
    (hb : d.binders[b.binder]? = some binder)
    (hn : operands.length = binder.operation.operandCount) :
    (bind host b operands fallback).exec e = (bindCounted host b operands fallback).exec e := by
  rw [bind, Act.exec_bind_ok (exec_binder hd hb), if_pos hn]

/-- A row of the right length with an operand without a value puts binding off. -/
theorem exec_bind_of_pending (hd : e.dispatchers[b.dispatcher]? = some d)
    (hb : d.binders[b.binder]? = some binder)
    (hn : operands.length = binder.operation.operandCount) (hp : Operand.pending operands ≠ []) :
    (bind host b operands fallback).exec e =
      (.ok (.deferred (Operand.pending operands)),
        { e with
          dispatchers :=
            e.dispatchers.modify b.dispatcher (·.modifyTally b.binder (·.countDeferral)) }) := by
  rw [exec_bind_of_length_eq hd hb hn, exec_bindCounted_of_pending hd hb hp]

/-- A row of the right length whose operands all have values is bound as the verdict says. -/
theorem exec_bind_of_known (hd : e.dispatchers[b.dispatcher]? = some d)
    (hb : d.binders[b.binder]? = some binder)
    (hn : operands.length = binder.operation.operandCount)
    (hknown : ∀ o ∈ operands, o.isKnown = true) :
    (bind host b operands fallback).exec e =
      match (binder.operation.judge ⟨host.resolver b.dispatcher, d.types, d.emptyResult⟩
          operands).exec e with
      | (.ok verdict, t) =>
        (.ok (.bound (verdict.rule fallback)),
          { t with
            dispatchers := t.dispatchers.modify b.dispatcher fun d =>
              d.modifyTally (binder.creditee b.binder operands)
                (·.countRule (verdict.rule fallback)) })
      | (.error p, t) => (.error p, t) := by
  rw [exec_bind_of_length_eq hd hb hn,
    exec_bindCounted_of_known hd hb (Operand.pending_eq_nil_iff.mpr hknown)]

/-- What is bound is the rule of a verdict on a row of the right length. -/
theorem judged_of_bound (hd : e.dispatchers[b.dispatcher]? = some d)
    (hb : d.binders[b.binder]? = some binder) {r : Rule} {t : Engine σ}
    (h : (bind host b operands fallback).exec e = (.ok (.bound r), t)) :
    operands.length = binder.operation.operandCount ∧ ∃ verdict u,
      (binder.operation.judge ⟨host.resolver b.dispatcher, d.types, d.emptyResult⟩
        operands).exec e = (.ok verdict, u) ∧ r = verdict.rule fallback := by
  by_cases hn : operands.length = binder.operation.operandCount
  · by_cases hp : Operand.pending operands = []
    · rw [exec_bind_of_known hd hb hn (Operand.pending_eq_nil_iff.mp hp)] at h
      split at h
      next verdict u hverdict =>
        cases h
        exact ⟨hn, verdict, u, hverdict, rfl⟩
      next => cases h
    · rw [exec_bind_of_pending hd hb hn hp] at h
      cases h
  · rw [exec_bind_of_length_ne hd hb hn] at h
    cases h

theorem exec_newSite (hd : e.dispatchers[b.dispatcher]? = some d)
    (hb : d.binders[b.binder]? = some binder) (maxRules : Nat) :
    (newSite b maxRules fallback).exec e =
      (.ok e.sites.size, { e with
        sites := e.sites.push
          { binder := b, kind := binder.operation.kind, fallback, maxRules } }) := by
  rw [newSite, Act.exec_bind_ok (exec_binder hd hb)]
  rfl

end Binding

section Execution

variable {index : Nat} {s : Site} {operands : List Value}

theorem exec_ruleFor_of_none (hs : e.sites[index]? = none) :
    (ruleFor host index operands).exec e = (.error (.unknownSite index), e) := by
  rw [ruleFor, site, Act.exec_bind_error]
  rw [Act.exec_bind_ok (Act.exec_get e), hs]
  rfl

/-- A rule that was kept is found and counted, and nothing is asked. -/
theorem exec_ruleFor_of_found (hs : e.sites[index]? = some s) {r : Rule}
    (hr : s.cache.find? operands = some r) :
    (ruleFor host index operands).exec e =
      (.ok r, { e with sites := e.sites.modify index fun _ => { s with hits := s.hits + 1 } }) := by
  have hl : s.lookUp operands = (some r, { s with hits := s.hits + 1 }) := by
    rw [Site.lookUp, hr]
  rw [ruleFor, Act.exec_bind_ok (exec_site hs), hl]
  rfl

/-- Without a rule that applies the miss is counted and binding starts from there. -/
theorem exec_ruleFor_of_not_found (hs : e.sites[index]? = some s)
    (hr : s.cache.find? operands = none) :
    (ruleFor host index operands).exec e =
      match (bind host s.binder (operands.map .known) s.fallback).exec
          { e with sites := e.sites.modify index fun _ => { s with misses := s.misses + 1 } } with
      | (.ok (.bound r), t) =>
        (.ok r, { t with sites := t.sites.modify index (·.keep r operands) })
      | (.ok (.deferred pending), t) => (.error (.deferredKnown s.kind pending), t)
      | (.error p, t) => (.error p, t) := by
  have hl : s.lookUp operands = (none, { s with misses := s.misses + 1 }) := by
    rw [Site.lookUp, hr]
  rw [ruleFor, Act.exec_bind_ok (exec_site hs), hl]
  dsimp only
  rw [Act.exec_bind_ok (exec_modifySite _ _ _), Act.exec_bind]
  split
  next binding t h =>
    rw [h]
    cases binding <;> rfl
  next h => rw [h]

theorem exec_execute (host : Host σ) (index : Nat) (operands : List Value) (e : Engine σ) :
    (execute host index operands).exec e =
      match (ruleFor host index operands).exec e with
      | (.ok r, t) => (r.run (call host) operands).exec t
      | (.error p, t) => (.error p, t) := by
  rw [execute, Run.exec_bind, Run.exec_lift]
  cases (ruleFor host index operands).exec e with
  | mk r t => cases r <;> rfl

end Execution

end Dispatch.Engine
