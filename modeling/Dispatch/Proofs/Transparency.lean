import Mathlib.Tactic.Choose
import Dispatch.Proofs.SmallHost
import Dispatch.Proofs.Verdict

/-!
# Caching is transparent

With a resolver that goes by views, and where the number of a type says which handle it is, the
verdict on a row of operands is decided by its shape (`judge_eq_of_shape`), and the guard of its
rule says which shape that is (`judge_yields`). So a rule that applies to a row is the one that the
row would be bound to, and a call site runs at each step what a fresh bind would give, whatever it
keeps (`caching_transparent`). Storing in members and calling functions are apart: there the verdict
depends on more than the guard says.

In the runtime: `CallSite.execute` over all binders but `SetMemberBinder` and `InvokeBinder`, and
over `InvokeMemberBinder` where no target is a callable.
-/

namespace Dispatch

variable {σ : Type}

namespace Engine

variable {host : Host σ} {index : Nat} {e : Engine σ} {s : Site} {x : Backdrop} {b : BinderRef}
  {V : List Value → Prop}

theorem pure_injective (e : Engine σ) {α : Type} {a a' : α}
    (h : (pure a : Act (Engine σ) α) = pure a') : a = a' := by
  have hexec := congrArg (fun act => (Act.exec act e).1) h
  exact Except.ok.inj hexec

/-- With a resolver that goes by views each row has its verdict, and rules replay soundly. -/
theorem settles_of_view (e : Engine σ) (hview : (host.resolver b.dispatcher).ByView)
    (hset : x.operation.kind ≠ .setMember) (hinvoke : x.operation.kind ≠ .invoke)
    (hcall : x.operation.kind = .invokeMember →
      ∀ v, V v → ∀ y, v.head? = some y → y.callable? = none)
    (hV : Coherent V) :
    ∃ verdict, Settles host b x V verdict ∧
      Sound x.operation.operandCount V fun v => (verdict v).rule none := by
  let scope := x.scope (host.resolver b.dispatcher)
  have hresolver : scope.resolver.ByView := hview
  have hjudge : ∀ v, V v → v.length = x.operation.operandCount →
      ∃ verdict, x.operation.judge scope (v.map .known) = pure verdict := by
    intro v hv hn
    obtain ⟨verdict, hverdict, -⟩ :=
      Operation.judge_eq_of_shape hresolver hset hinvoke hV hcall hv hv hn hn rfl
    exact ⟨verdict, hverdict⟩
  have : Inhabited Verdict := ⟨.performed default⟩
  choose! verdict hverdict using hjudge
  have hguard : ∀ v, V v → v.length = x.operation.operandCount →
      ((verdict v).rule none).guard = x.operation.guardOn v := by
    intro v hv hn
    obtain ⟨a, t, ha, hguard, -⟩ := Operation.judge_yields Eq.refl (hresolver.answers Eq.refl) hset
      hinvoke hn (fun h => hcall h v hv) e
    rw [hverdict v hv hn] at ha
    cases ha
    exact hguard
  refine ⟨verdict, hverdict, fun u w hu hw hun hwn happlies => ?_⟩
  have hne : u ≠ [] := List.ne_nil_of_length_pos (hun ▸ x.operation.operandCount_pos)
  have hshape : x.operation.shape u = x.operation.shape w := by
    rw [Rule.applies, hguard u hu hun] at happlies
    exact (Operation.check_guardOn hne (hun.trans hwn.symm)).mp happlies
  obtain ⟨common, hcu, hcw⟩ :=
    Operation.judge_eq_of_shape hresolver hset hinvoke hV hcall hu hw hun hwn hshape
  rw [hverdict u hu hun] at hcu
  rw [hverdict w hw hwn] at hcw
  have hsame : verdict u = verdict w := (pure_injective e hcu).trans (pure_injective e hcw).symm
  show ((verdict u).rule none).fragment = ((verdict w).rule none).fragment
  rw [hsame]

/-- A call site runs the very code that a fresh bind of the operands would give, whatever was done
before and however many rules it may keep. If routines are discreet, all its outcomes are those of
the same call site with the limit zero, which keeps nothing and binds every time. -/
theorem caching_transparent (h : Unused index s x e)
    (hview : (host.resolver s.binder.dispatcher).ByView)
    (hset : x.operation.kind ≠ .setMember) (hinvoke : x.operation.kind ≠ .invoke)
    (hcall : x.operation.kind = .invokeMember →
      ∀ v, V v → ∀ y, v.head? = some y → y.callable? = none)
    (hV : Coherent V) (hr : Courteous host index s.binder V) :
    Transparent host index s.binder x.operation.operandCount V e ∧
    ∀ steps : List Step,
      (∀ v, .execute v ∈ steps → V v ∧ v.length = x.operation.operandCount) →
      keptRules index (after host index (e.limited index 0) steps) = [] ∧
      (Discreet host index s.binder V e (e.limited index 0) →
        outcomes host index e steps = outcomes host index (e.limited index 0) steps) := by
  obtain ⟨verdict, hj, hsound⟩ := settles_of_view e hview hset hinvoke hcall hV
  refine ⟨transparent_of_sound h hr hj (.inr hsound), fun steps hsteps => ⟨?_, fun hd => ?_⟩⟩
  · exact keptRules_after (h.limited 0) hj hr rfl fun v hv => (hsteps v hv).1
  · exact outcomes_limited h hj hsound 0 hd hsteps

/-- Integers and nil are added at a call site that keeps a single rule, which gives up and is reset
on the way. -/
theorem caching_transparent_adding :
    Transparent smallHost 0 ⟨0, 0⟩ 2 (fun v => ∀ y ∈ v, y.type ∈ [Ty.object, Ty.integer])
      (smallEngine (.ofOperator .add false) 1) ∧
    ∀ i j : Int64,
      outcomes smallHost 0 (smallEngine (.ofOperator .add false) 1)
          [.execute [.integer i, .integer j], .execute [.nil, .integer j], .reset,
            .execute [.integer j, .integer i]] =
        outcomes smallHost 0 ((smallEngine (.ofOperator .add false) 1).limited 0 0)
          [.execute [.integer i, .integer j], .execute [.nil, .integer j], .reset,
            .execute [.integer j, .integer i]] := by
  have hV : Coherent fun v => ∀ y ∈ v, y.type ∈ [Ty.object, Ty.integer] :=
    coherent_of_nodup (by decide)
  obtain ⟨htransparent, hsteps⟩ := caching_transparent
    (unused_smallEngine (.ofOperator .add false) 1) smallResolver_byView (by decide) (by decide)
    (fun h => absurd h (by decide)) hV (smallHost_courteous _ _ _)
  refine ⟨htransparent, fun i j => (hsteps _ ?_).2 (smallHost_discreet _ _ _ _ _)⟩
  intro v hv
  simp only [List.mem_cons, Step.execute.injEq, reduceCtorEq, List.not_mem_nil, or_false,
    false_or] at hv
  rcases hv with rfl | rfl | rfl <;> exact ⟨by simp [Value.type], rfl⟩

end Engine

end Dispatch
