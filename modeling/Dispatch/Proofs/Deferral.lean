import Dispatch.Proofs.Snapshot

/-!
# Putting off

Binding waits for values. As long as an operand has none, a request to bind is put off: the answer
is the positions that are waited for, the binder counts that it put off, and nothing else happens.
In particular the host is not asked, so that any other host would do the same. Once all operands
have values binding is never put off (`not_deferred_of_known`), and with a resolver that answers it
answers with a rule (`bound_of_responds`).

An execution of a call site has values for all operands, so what it does where binding is put off
is never done: whatever stood there instead, call sites would do the same (`ruleForOr_eq`).
`bind_deferral` is all of this about one row of operands.

In the runtime: `Deferral.collect` and `Binder.bind`, and the unreachable case of `CallSite.bind`.
-/

namespace Dispatch

variable {σ : Type}

/-- Actions that go on alike from whatever the first one answers do the same. -/
theorem Act.exec_bind_congr {α β : Type} {x : Act σ α} {f g : α → Act σ β} {s : σ}
    (h : ∀ a t, x.exec s = (.ok a, t) → (f a).exec t = (g a).exec t) :
    exec (x >>= f) s = exec (x >>= g) s := by
  rw [exec_bind, exec_bind]
  split
  next a t ha => exact h a t ha
  next => rfl

namespace Engine

/-- What a binder counted so far. -/
def tally? (e : Engine σ) (b : BinderRef) : Option Tally :=
  e.dispatchers[b.dispatcher]?.bind fun d => d.binders[b.binder]?.map Binder.tally

/-- Counting in one tally changes that tally only. -/
theorem tally?_modifyTally (e : Engine σ) (b c : BinderRef) (f : Tally → Tally) :
    ({ e with dispatchers := e.dispatchers.modify b.dispatcher (·.modifyTally b.binder f) } :
      Engine σ).tally? c = if c = b then (e.tally? c).map f else e.tally? c := by
  obtain ⟨i, k⟩ := b
  obtain ⟨i', k'⟩ := c
  simp only [tally?, Array.getElem?_modify, BinderRef.mk.injEq]
  by_cases hi : i = i'
  · subst hi
    rw [if_pos rfl]
    cases e.dispatchers[i]? with
    | none => simp
    | some d =>
      simp only [Option.map_some, Option.bind_some, Dispatcher.modifyTally, Array.getElem?_modify,
        true_and]
      by_cases hk : k = k'
      · subst hk
        rw [if_pos rfl, if_pos rfl]
        cases d.binders[k]? <;> rfl
      · rw [if_neg hk, if_neg fun h => hk h.symm]
  · rw [if_neg hi, if_neg fun h => hi h.1.symm]

variable {host : Host σ} {e : Engine σ} {b : BinderRef} {x : Backdrop} {operands : List Operand}

/-- A binder with a backdrop has a tally. -/
theorem tally?_of_backdrop (hx : e.backdrop b = some x) : ∃ tally, e.tally? b = some tally := by
  obtain ⟨d, binder, hd, hb, -⟩ := backdrop_eq_some.mp hx
  exact ⟨binder.tally, by rw [tally?, hd, Option.bind_some, hb]; rfl⟩

/-- Operands that all have values are not waited for. -/
theorem not_deferred_of_known (hknown : ∀ o ∈ operands, o.isKnown = true)
    (fallback : Option Rule) (pending : List Nat) :
    ¬ Act.Gives (bind host b operands fallback) (.deferred pending) := by
  intro h
  obtain ⟨_, -, h⟩ := Act.gives_bind h
  dsimp only at h
  split at h
  next =>
    obtain ⟨_, -, h⟩ := Act.gives_bind h
    rw [Operand.pending_eq_nil_iff.mpr hknown] at h
    obtain ⟨_, -, h⟩ := Act.gives_bind h
    obtain ⟨_, -, h⟩ := Act.gives_bind h
    obtain ⟨_, -, h⟩ := Act.gives_bind h
    cases Act.gives_pure h
  next => exact Act.not_gives_throw h

/-- Operands that all have values are bound to a rule if the resolver answers. -/
theorem bound_of_responds (hx : e.backdrop b = some x)
    (hn : operands.length = x.operation.operandCount)
    (hknown : ∀ o ∈ operands, o.isKnown = true) (hr : (host.resolver b.dispatcher).Responds)
    (fallback : Option Rule) :
    ∃ r t, (bind host b operands fallback).exec e = (.ok (.bound r), t) := by
  obtain ⟨d, binder, hd, hb, rfl⟩ := backdrop_eq_some.mp hx
  dsimp only at hn
  obtain ⟨target, rest, rfl⟩ :=
    List.exists_cons_of_length_pos (hn ▸ binder.operation.operandCount_pos)
  obtain ⟨verdict, t, hverdict, -, -⟩ := Operation.judge_responds
    (s := ⟨host.resolver b.dispatcher, d.types, d.emptyResult⟩) hr hn e
  rw [exec_bind_of_known hd hb hn hknown, hverdict]
  exact ⟨_, _, rfl⟩

/-- The rule that a call site runs, where something else is done should binding be put off. -/
def ruleForOr (host : Host σ) (otherwise : Site → List Nat → Act (Engine σ) Rule) (index : Nat)
    (operands : List Value) : Act (Engine σ) Rule := do
  let s ← site index
  let (found, s) := s.lookUp operands
  modifySite index fun _ => s
  match found with
  | some rule => pure rule
  | none =>
    match ← bind host s.binder (operands.map .known) s.fallback with
    | .bound rule =>
      modifySite index (·.keep rule operands)
      pure rule
    | .deferred pending => otherwise s pending

/-- What stands there is a panic. -/
theorem ruleFor_eq_ruleForOr (host : Host σ) :
    ruleFor host = ruleForOr host fun s pending => throw (.deferredKnown s.kind pending) := rfl

/-- Whatever a call site would do should binding be put off, it never does. -/
theorem ruleForOr_eq (host : Host σ) (otherwise : Site → List Nat → Act (Engine σ) Rule)
    (index : Nat) (values : List Value) (e : Engine σ) :
    (ruleForOr host otherwise index values).exec e = (ruleFor host index values).exec e := by
  rw [ruleFor_eq_ruleForOr]
  refine Act.exec_bind_congr fun s t _ => Act.exec_bind_congr fun _ u _ => ?_
  split
  next => rfl
  next =>
    refine Act.exec_bind_congr fun binding v hbind => ?_
    cases binding with
    | bound rule => rfl
    | deferred pending =>
      exact absurd ⟨u, v, hbind⟩
        (not_deferred_of_known (Operand.isKnown_of_mem_map_known values) _ pending)

/-- Binding is put off just while an operand has no value. Then the answer is the positions that are
waited for, in order, whoever the host is; the binder counts that it put off, and all other counts
stay. Once all operands have values binding answers with a rule if the resolver answers at all, and
never with anything else, so no call site comes to what it would do otherwise. -/
theorem bind_deferral (host : Host σ) (hx : e.backdrop b = some x)
    (hn : operands.length = x.operation.operandCount) (fallback : Option Rule) :
    ((∃ pending t, (bind host b operands fallback).exec e = (.ok (.deferred pending), t)) ↔
      ∃ o ∈ operands, o.isKnown = false) ∧
    (∀ pending t, (bind host b operands fallback).exec e = (.ok (.deferred pending), t) →
      pending.Pairwise (· < ·) ∧
      (∀ i, i ∈ pending ↔ ∃ o, operands[i]? = some o ∧ o.isKnown = false) ∧
      (∀ other : Host σ, (bind other b operands fallback).exec e = (.ok (.deferred pending), t)) ∧
      t.host = e.host ∧
      (∃ tally, e.tally? b = some tally ∧
        t.tally? b = some { tally with deferrals := tally.deferrals + 1 }) ∧
      ∀ c, c ≠ b → t.tally? c = e.tally? c) ∧
    ((∀ o ∈ operands, o.isKnown = true) →
      (∀ binding t, (bind host b operands fallback).exec e = (.ok binding, t) →
        ∃ r, binding = .bound r) ∧
      ((host.resolver b.dispatcher).Responds →
        ∃ r t, (bind host b operands fallback).exec e = (.ok (.bound r), t))) ∧
    ∀ otherwise index values (t : Engine σ),
      (ruleForOr host otherwise index values).exec t = (ruleFor host index values).exec t := by
  have hunknown : (∃ o ∈ operands, o.isKnown = false) ↔ Operand.pending operands ≠ [] := by
    rw [Ne, Operand.pending_eq_nil_iff]
    simp only [not_forall, Bool.not_eq_true, exists_prop]
  have hput : ∀ other : Host σ, Operand.pending operands ≠ [] →
      (bind other b operands fallback).exec e = (.ok (.deferred (Operand.pending operands)),
        { e with
          dispatchers :=
            e.dispatchers.modify b.dispatcher (·.modifyTally b.binder (·.countDeferral)) }) := by
    intro other hp
    obtain ⟨d, binder, hd, hb, rfl⟩ := backdrop_eq_some.mp hx
    exact exec_bind_of_pending hd hb hn hp
  have hwaits : ∀ pending t,
      (bind host b operands fallback).exec e = (.ok (.deferred pending), t) →
      Operand.pending operands ≠ [] := fun pending t h hp =>
    not_deferred_of_known (Operand.pending_eq_nil_iff.mp hp) fallback pending ⟨e, t, h⟩
  refine ⟨⟨?_, fun h => ⟨_, _, hput host (hunknown.mp h)⟩⟩, ?_, ?_, ?_⟩
  · rintro ⟨pending, t, h⟩
    exact hunknown.mpr (hwaits pending t h)
  · intro pending t h
    have hp := hwaits pending t h
    cases (hput host hp).symm.trans h
    refine ⟨Operand.pairwise_pending operands, fun _ => Operand.mem_pending,
      fun other => hput other hp, rfl, ?_, fun c hc => ?_⟩
    · obtain ⟨tally, htally⟩ := tally?_of_backdrop hx
      refine ⟨tally, htally, ?_⟩
      rw [tally?_modifyTally, if_pos rfl, htally]
      rfl
    · rw [tally?_modifyTally, if_neg hc]
  · intro hknown
    refine ⟨fun binding t h => ?_, fun hr => ?_⟩
    · cases binding with
      | bound r => exact ⟨r, rfl⟩
      | deferred pending =>
        exact absurd ⟨e, t, h⟩ (not_deferred_of_known hknown fallback pending)
    · exact bound_of_responds hx hn hknown hr fallback
  · exact fun otherwise index values t => ruleForOr_eq host otherwise index values t

end Engine

/-- A member is called with two arguments of which the last has no value, as the target has none;
nil in between is a value. -/
theorem bind_deferral_calling :
    ∃ t, (Engine.bind smallHost ⟨0, 0⟩ [.unknown .text, .known .nil, .unknown .object] none).exec
        (smallEngine (.invokeMember ⟨"send", false⟩ (.positional 2)) 4) =
        (.ok (.deferred [0, 2]), t) ∧
      t.tally? ⟨0, 0⟩ = some ⟨0, 1, []⟩ := by
  have hn : [Operand.unknown .text, .known .nil, .unknown .object].length = 3 := rfl
  obtain ⟨hiff, hput, -⟩ := Engine.bind_deferral smallHost
    (e := smallEngine (.invokeMember ⟨"send", false⟩ (.positional 2)) 4) (b := ⟨0, 0⟩)
    (x := smallBackdrop (.invokeMember ⟨"send", false⟩ (.positional 2))) rfl hn none
  obtain ⟨pending, t, h⟩ := hiff.mpr ⟨.unknown .text, List.mem_cons_self, rfl⟩
  obtain ⟨-, -, -, -, ⟨tally, htally, hcount⟩, -⟩ := hput pending t h
  cases htally
  have hpending : pending = [0, 2] := by
    cases h
    rfl
  subst hpending
  exact ⟨t, h, hcount⟩

end Dispatch
