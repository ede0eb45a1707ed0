import Dispatch.Proofs.Reentrancy
import Dispatch.Proofs.Transparency

/-!
# Rules to fall back on

A call site may have a rule to fall back on where its operation is refused. When an operation is
bound that rule never stands in for one that succeeds. But it is kept like any other rule, under a
guard of its own, and that guard need not say what the refusal was due to. So it may be found again
for operands on which the operation succeeds (`not_prevails_of_always`).

Just this has to be excluded: a rule that is kept for operands whose operation is refused must not
hold on operands whose operation succeeds with other code (`Harmless`). Then success prevails over
the rule to fall back on, whatever was executed before, and otherwise two executions are enough to
see that it does not (`success_prevails_iff`).

In the runtime: `CallSite.with_fallback` and `fallback_or_raise`.
-/

namespace Dispatch

variable {σ : Type}

namespace Engine

/-- The operation of a binder succeeds on these operands, with this rule. -/
def Succeeds (host : Host σ) (b : BinderRef) (x : Backdrop) (operands : List Value) (r : Rule) :
    Prop :=
  x.operation.judge (x.scope (host.resolver b.dispatcher)) (operands.map .known) =
    pure (.performed r)

/-- The operation of a binder is refused on these operands. -/
def Refuses (host : Host σ) (b : BinderRef) (x : Backdrop) (operands : List Value) : Prop :=
  ∃ substitute, x.operation.judge (x.scope (host.resolver b.dispatcher)) (operands.map .known) =
    pure (.refused substitute)

/-- On operands on which the operation succeeds, the call site runs the code of the success,
whatever steps were done before. -/
def Prevails (host : Host σ) (index : Nat) (b : BinderRef) (x : Backdrop) (V : List Value → Prop)
    (e : Engine σ) : Prop :=
  ∀ steps : List Step,
    (∀ v, .execute v ∈ steps → V v ∧ v.length = x.operation.operandCount) →
    ∀ v r, V v → v.length = x.operation.operandCount → Succeeds host b x v r →
      ∃ kept t, (ruleFor host index v).exec (after host index e steps) = (.ok kept, t) ∧
        kept.fragment = r.fragment ∧
        (execute host index v).exec (after host index e steps) = (r.run (call host) v).exec t

/-- A rule that holds on operands whose operation is refused, and on operands whose operation
succeeds, is the code of the success. -/
def Harmless (host : Host σ) (b : BinderRef) (x : Backdrop) (V : List Value → Prop) (f : Rule) :
    Prop :=
  ∀ u w r, V u → V w → u.length = x.operation.operandCount → w.length = x.operation.operandCount →
    Refuses host b x u → f.applies u = true → Succeeds host b x w r → f.applies w = true →
    f.fragment = r.fragment

variable {host : Host σ} {index : Nat} {e : Engine σ} {s : Site} {x : Backdrop} {f : Rule}
  {V : List Value → Prop} {verdict : List Value → Verdict}

section Settled

variable (hj : Settles host s.binder x V verdict)
include hj

theorem succeeds_iff (e : Engine σ) {v : List Value} (hv : V v)
    (hn : v.length = x.operation.operandCount) {r : Rule} :
    Succeeds host s.binder x v r ↔ verdict v = .performed r := by
  rw [Succeeds, hj v hv hn]
  exact ⟨pure_injective e, fun h => by rw [h]⟩

/-- What the rules of a call site are bound for, where each row of operands has its verdict. -/
def verdictTerms (s : Site) (x : Backdrop) (V : List Value → Prop)
    (verdict : List Value → Verdict) : Terms where
  backdrop := (· = some x)
  bound v r := V v ∧ v.length = x.operation.operandCount ∧ r = (verdict v).rule s.fallback
  nested := True

theorem binds_of_settles {v : List Value} (hv : V v) :
    Binds host index s (verdictTerms s x V verdict) v := by
  by_cases hn : v.length = x.operation.operandCount
  · constructor
    · intro e es h
      obtain ⟨i, g, hbind⟩ := exec_bind_of_settles h.backdrop hj hv hn s.fallback
      rw [hbind]
      exact Uses.of_tally e _ i g es h
    · intro e r t hx h
      obtain ⟨i, g, hbind⟩ := exec_bind_of_settles hx hj hv hn s.fallback
      rw [hbind] at h
      cases h
      exact ⟨hv, hn, rfl⟩
  · constructor
    · intro e es h
      obtain ⟨p, hbind⟩ := exec_bind_of_wrong_length host h.backdrop hn s.fallback
      rw [hbind]
      exact Uses.refl e es h
    · intro e r t hx h
      obtain ⟨p, hbind⟩ := exec_bind_of_wrong_length host hx hn s.fallback
      rw [hbind] at h
      cases h

/-- Rows on which the operation succeeds run the code of the success if no rule that is kept gets in
the way. -/
theorem prevails_of_harmless (hs : e.sites[index]? = some s) (hnew : s.New)
    (hfallback : s.fallback = some f) (hx : e.backdrop s.binder = some x)
    (hsound : Sound x.operation.operandCount V fun v => (verdict v).rule none)
    (hr : Courteous host index s.binder V)
    (hharmless : s.maxRules = 0 ∨ Harmless host s.binder x V f) :
    Prevails host index s.binder x V e := by
  intro steps hsteps v r hv hn hsuccess
  have hverdict : verdict v = .performed r := (succeeds_iff hj e hv hn).mp hsuccess
  have huses : Uses index s (verdictTerms s x V verdict) e (after host index e steps) :=
    (course_after hr (fun v hv => (hsteps v hv).1) e).uses trivial fun v hv =>
      binds_of_settles hj hv
  obtain ⟨es, hreached, -⟩ := huses [] ⟨hs, .new, hx⟩
  rw [List.nil_append] at hreached
  -- whichever rule is found, its code is the code of the success
  have hkept : ∃ kept t, (ruleFor host index v).exec (after host index e steps) = (.ok kept, t) ∧
      kept.fragment = r.fragment := by
    cases hfound : (s.through es).cache.find? v with
    | none =>
      obtain ⟨t, hmiss, hexec⟩ := hreached.exec_ruleFor_miss host hfound
      obtain ⟨i, g, hbind⟩ := exec_bind_of_settles hmiss.backdrop hj hv hn s.fallback
      rw [hbind, hverdict] at hexec
      exact ⟨r, _, hexec, rfl⟩
    | some q =>
      refine ⟨q, _, exec_ruleFor_of_found hreached.site hfound, ?_⟩
      have hmem : q ∈ (s.through es).cache.rules := List.mem_of_find?_eq_some hfound
      have happlies : q.applies v = true :=
        List.find?_some (p := fun q : Rule => q.applies v) hfound
      obtain ⟨u, ⟨hu, hun, hq⟩, hself⟩ := hreached.kept hnew hmem
      cases hbound : verdict u with
      | performed own =>
        have hreplayed : ((verdict u).rule none).applies v = true →
            ((verdict u).rule none).fragment = ((verdict v).rule none).fragment :=
          hsound u v hu hv hun hn
        rw [hbound, hverdict] at hreplayed
        rw [hbound] at hq
        rw [hq] at happlies ⊢
        exact hreplayed happlies
      | refused substitute =>
        rw [hbound, hfallback] at hq
        obtain rfl : q = f := hq
        rcases hharmless with hzero | hharmless
        · have hwithin := (hnew.consistent es).ordered.within
          rw [(s.through_same es).2.2.2, hzero, Nat.le_zero, List.length_eq_zero_iff] at hwithin
          rw [hwithin] at hmem
          exact absurd hmem List.not_mem_nil
        · refine hharmless u v r hu hv hun hn ⟨substitute, ?_⟩ hself hsuccess happlies
          rw [hj u hu hun, hbound]
  obtain ⟨kept, t, hfind, hfragment⟩ := hkept
  refine ⟨kept, t, hfind, hfragment, ?_⟩
  rw [exec_execute, hfind]
  show (kept.fragment.evaluate (call host) v).exec t = _
  rw [hfragment]
  rfl

/-- The rule to fall back on is found out by two executions if it gets in the way of a success. -/
theorem harmless_of_prevails (hs : e.sites[index]? = some s) (hempty : s.cache = .empty)
    (hfallback : s.fallback = some f) (hx : e.backdrop s.binder = some x) (hlimit : s.maxRules ≠ 0)
    (haside : ∀ i args, Run.Within (Aside index s.binder) (host.routine i args))
    (hp : Prevails host index s.binder x V e) : Harmless host s.binder x V f := by
  rintro u w r hu hw hun hwn ⟨substitute, hrefused⟩ hself hsuccess happlies
  rw [hj u hu hun] at hrefused
  have hrule : (verdict u).rule s.fallback = f := by
    rw [pure_injective e hrefused, hfallback]
    rfl
  have hquiet : Run.Within (Aside index s.binder) (f.run (call host) u) :=
    Fragment.evaluate_within Aside.refl Aside.trans (call_within haside Aside.of_pack) _ _
  -- execute on `u`, and then look which rule is found for `w`
  obtain ⟨kept, t, hfind, hfragment, -⟩ :=
    hp [.execute u] (fun v hv => by cases List.mem_singleton.mp hv; exact ⟨hu, hun⟩) w r hw hwn
      hsuccess
  obtain ⟨hsite, -⟩ := after_first hs hempty hx hj hlimit hu hun (hrule ▸ hself) (hrule ▸ hquiet)
  rw [hrule] at hsite
  have hfound : (RuleCache.monomorphic f).find? w = some f := List.find?_cons_of_pos happlies
  rw [exec_ruleFor_of_found hsite hfound] at hfind
  cases hfind
  exact hfragment

end Settled

/-- Success prevails over the rule to fall back on if the call site keeps no rules, or if that rule
is harmless; and where routines leave the call site alone, only then. -/
theorem success_prevails_iff (hs : e.sites[index]? = some s) (hnew : s.New)
    (hfallback : s.fallback = some f) (hx : e.backdrop s.binder = some x)
    (hview : (host.resolver s.binder.dispatcher).ByView)
    (hset : x.operation.kind ≠ .setMember) (hinvoke : x.operation.kind ≠ .invoke)
    (hmember : x.operation.kind ≠ .invokeMember) (hV : Coherent V)
    (hr : Courteous host index s.binder V) :
    (s.maxRules = 0 ∨ Harmless host s.binder x V f → Prevails host index s.binder x V e) ∧
    ((∀ i args, Run.Within (Aside index s.binder) (host.routine i args)) →
      Prevails host index s.binder x V e → s.maxRules = 0 ∨ Harmless host s.binder x V f) := by
  obtain ⟨verdict, hj, hsound⟩ :=
    settles_of_view e hview hset hinvoke (fun h => absurd h hmember) hV
  refine ⟨prevails_of_harmless hj hs hnew hfallback hx hsound hr, fun haside hp => ?_⟩
  by_cases hlimit : s.maxRules = 0
  · exact .inl hlimit
  · exact .inr (harmless_of_prevails hj hs hnew.cache hfallback hx hlimit haside hp)

end Engine

section Conversions

/-- Falling back on minus one, under a guard. -/
def minusOne (guard : Guard) : Rule :=
  ⟨.constant (.integer (-1)) .integer, guard⟩

/-- The call site of a small engine, with minus one to fall back on. -/
def fallbackSite (op : Operation) (guard : Guard) : Site :=
  { smallSite op 4 with fallback := some (minusOne guard) }

def fallbackEngine (op : Operation) (guard : Guard) : Engine Unit :=
  { smallEngine op 4 with sites := #[fallbackSite op guard] }

/-- A text or an integer. -/
def TextOrInteger (v : List Value) : Prop :=
  (∃ t, v = [.text t]) ∨ ∃ i, v = [.integer i]

theorem coherent_textOrInteger : Coherent TextOrInteger := by
  refine (coherent_of_nodup (by decide : ([Ty.text, .integer].map Ty.id).Nodup)).mono ?_
  rintro _ (⟨t, rfl⟩ | ⟨i, rfl⟩) y hy
  · rw [List.mem_singleton.mp hy]
    exact List.mem_cons_self ..
  · rw [List.mem_singleton.mp hy]
    exact List.mem_cons_of_mem _ (List.mem_cons_self ..)

/-- Falling back under a guard that only texts pass, which cannot be converted, is harmless. -/
theorem success_prevails_over_texts :
    Engine.Prevails smallHost 0 ⟨0, 0⟩ (smallBackdrop (.convert .integer)) TextOrInteger
      (fallbackEngine (.convert .integer) (.one ⟨0, .typeIs .text⟩)) := by
  refine (Engine.success_prevails_iff (s := fallbackSite (.convert .integer)
    (.one ⟨0, .typeIs .text⟩)) rfl ⟨rfl, rfl, rfl⟩ rfl rfl smallResolver_byView (by decide)
    (by decide) (by decide) coherent_textOrInteger (Engine.smallHost_courteous _ _ _)).1 (.inr ?_)
  rintro u _ r - (⟨t, rfl⟩ | ⟨i, rfl⟩) - - - - hsuccess happlies
  · cases Engine.pure_injective (smallEngine (.convert .integer) 4) hsuccess
  · cases happlies

/-- Falling back under no condition: after a text no integer is converted to itself any more. -/
theorem not_prevails_of_always :
    (smallResolver : Resolver (Engine Unit)).ByView ∧ Coherent TextOrInteger ∧
    Engine.Succeeds smallHost ⟨0, 0⟩ (smallBackdrop (.convert .integer)) [.integer 5]
      ⟨.operand 0 .integer, .one ⟨0, .typeIs .integer⟩⟩ ∧
    Engine.outcomes smallHost 0 (fallbackEngine (.convert .integer) .always)
        [.execute [.integer 5]] = [.ok (some (.ok (.integer 5)))] ∧
    Engine.outcomes smallHost 0 (fallbackEngine (.convert .integer) .always)
        [.execute [.text "five"], .execute [.integer 5]] =
      [.ok (some (.ok (.integer (-1)))), .ok (some (.ok (.integer (-1))))] ∧
    ¬ Engine.Prevails smallHost 0 ⟨0, 0⟩ (smallBackdrop (.convert .integer)) TextOrInteger
      (fallbackEngine (.convert .integer) .always) := by
  refine ⟨smallResolver_byView, coherent_textOrInteger, rfl, rfl, rfl, fun hp => ?_⟩
  obtain ⟨kept, t, hfind, hfragment, -⟩ := hp [.execute [.text "five"]]
    (fun v hv => by cases List.mem_singleton.mp hv; exact ⟨.inl ⟨_, rfl⟩, rfl⟩) [.integer 5]
    ⟨.operand 0 .integer, .one ⟨0, .typeIs .integer⟩⟩ (.inr ⟨_, rfl⟩) rfl rfl
  cases hfind
  cases hfragment

end Conversions

end Dispatch
