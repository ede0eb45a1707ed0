import Dispatch.Proofs.Reentrancy

/-!
# Operands too many or too few

A binder takes a row of operands of one length, and a row of another length makes it panic. But an
execution asks the binder only if the call site keeps no rule that applies, and a guard looks at
nothing but the operands at the positions of its checks: a rule that applies to a row applies to the
row with more operands behind it (`Guard.check_append`). So a row of the wrong length is rejected
before anything is asked or run just if no rule that is kept applies to it (`rejects_iff`), and as
soon as any rule is kept there are rows of the wrong length that are not rejected: the rule is run
on them (`miscounted_rejected_iff`).

In the runtime: the assertion in `Binder.bind`, and `CallSite.execute`.
-/

namespace Dispatch

/-- Where a rule is kept that applies to something, rules are found for rows that do not have the
right length: for the row that it applies to, or for that row with one more operand. -/
theorem RuleCache.exists_miscounted {rules : RuleCache} {r : Rule} (hr : r ∈ rules.rules)
    {u : List Value} (happlies : r.applies u = true) (count : Nat) :
    ∃ v, v.length ≠ count ∧ (rules.find? v).isSome = true := by
  have hfound : ∀ v, r.applies v = true → (rules.find? v).isSome = true := fun v hv =>
    List.find?_isSome.mpr ⟨r, hr, hv⟩
  by_cases hu : u.length = count
  · have hlonger : (u ++ [Value.nil]).length ≠ count := by
      rw [List.length_append, List.length_singleton]
      omega
    have hmore : r.applies (u ++ [Value.nil]) = true := Guard.check_append happlies [.nil]
    exact ⟨u ++ [.nil], hlonger, hfound _ hmore⟩
  · exact ⟨u, hu, hfound u happlies⟩

namespace Engine

variable {σ : Type} {index : Nat} {s c : Site} {v : List Value} {e : Engine σ} {x : Backdrop}

/-- Call site `index`, which is `c`, rejects a row of operands: whatever the host is, all that an
execution does is to count a miss and to panic over the length of the row. -/
def Rejects (index : Nat) (c : Site) (op : Operation) (v : List Value) (e : Engine σ) : Prop :=
  ∀ host : Host σ, (execute host index v).exec e =
    (.error (.operandCount op.kind v.length),
      { e with sites := e.sites.modify index fun _ => { c with misses := c.misses + 1 } })

/-- Where a rule is found it is run, however many operands there are. -/
theorem exec_execute_of_found (host : Host σ) (hc : e.sites[index]? = some c) {r : Rule}
    (hr : c.cache.find? v = some r) :
    (execute host index v).exec e = (r.run (call host) v).exec
      { e with sites := e.sites.modify index fun _ => { c with hits := c.hits + 1 } } := by
  rw [exec_execute, exec_ruleFor_of_found hc hr]

/-- Where none is found the binder rejects what it cannot take. -/
theorem rejects_of_not_found (hc : e.sites[index]? = some c) (hx : e.backdrop c.binder = some x)
    (hv : v.length ≠ x.operation.operandCount) (hnone : c.cache.find? v = none) :
    Rejects index c x.operation v e := by
  intro host
  obtain ⟨d, binder, hd, hb, rfl⟩ := backdrop_eq_some.mp hx
  have hlength : (v.map Operand.known).length ≠ binder.operation.operandCount := by
    rw [List.length_map]
    exact hv
  -- the miss is counted before the binder is asked
  let missed : Engine σ :=
    { e with sites := e.sites.modify index fun _ => { c with misses := c.misses + 1 } }
  have hbind : (bind host c.binder (v.map .known) c.fallback).exec missed =
      (.error (.operandCount binder.operation.kind (v.map Operand.known).length), missed) :=
    exec_bind_of_length_ne hd hb hlength
  rw [List.length_map] at hbind
  rw [exec_execute, exec_ruleFor_of_not_found hc hnone, hbind]

/-- A row of the wrong length is rejected just if no rule is found for it. -/
theorem rejects_iff (hc : e.sites[index]? = some c) (hx : e.backdrop c.binder = some x)
    (hv : v.length ≠ x.operation.operandCount) :
    Rejects index c x.operation v e ↔ c.cache.find? v = none := by
  refine ⟨fun hrejects => ?_, rejects_of_not_found hc hx hv⟩
  cases hfound : c.cache.find? v with
  | none => rfl
  | some r =>
    -- a host whose routines leave call sites alone: the hit is still there after the run
    let quiet : Host σ := ⟨fun _ => smallResolver, fun _ _ => pure .nil⟩
    have hcall : ∀ body args,
        Run.Within (fun a b => b.sites[index]? = a.sites[index]?) (call quiet body args) :=
      call_within (fun _ _ _ => rfl) fun values a => (Aside.of_pack (b := c.binder) values a).site
    have hran := Fragment.evaluate_within (R := fun a b => b.sites[index]? = a.sites[index]?)
      (fun _ => rfl) (fun h k => k.trans h) hcall v r.fragment
      { e with sites := e.sites.modify index fun _ => { c with hits := c.hits + 1 } }
    have hrejected := hrejects quiet
    rw [exec_execute_of_found quiet hc hfound] at hrejected
    rw [show (r.fragment.evaluate (call quiet) v).exec _ = _ from hrejected] at hran
    simp only [Array.getElem?_modify, if_pos, hc, Option.map_some, Option.some.injEq] at hran
    have hhits : c.hits = c.hits + 1 := congrArg Site.hits hran
    omega

/-- At a call site that was new once, whatever has become of it: a row of operands of the wrong
length is rejected, whatever the host is, without anything asked or run and with the rules left as
they are, if no rule that is kept applies to it, and otherwise the earliest one that does is run. So
all such rows are rejected just while no rule is kept, at all times if there is room for none. -/
theorem miscounted_rejected_iff {nested : Prop} {host : Host σ} (hs : e.sites[index]? = some s)
    (hnew : s.New) (ha : Abides host index s nested) :
    (∀ steps, ∃ es, Reached index s (.any nested) es (after host index e steps)) ∧
    ∀ es (t : Engine σ) c x, Reached index s (.any nested) es t → t.sites[index]? = some c →
      t.backdrop s.binder = some x →
      (∀ v, v.length ≠ x.operation.operandCount →
        (c.cache.find? v = none → Rejects index c x.operation v t) ∧
        ∀ r, c.cache.find? v = some r → ∀ host' : Host σ,
          (execute host' index v).exec t = (r.run (call host') v).exec
            { t with sites := t.sites.modify index fun _ => { c with hits := c.hits + 1 } }) ∧
      ((∀ v, v.length ≠ x.operation.operandCount → Rejects index c x.operation v t) ↔
        c.ruleCount = 0) ∧
      (s.maxRules = 0 → c.ruleCount = 0) := by
  refine ⟨fun steps => ?_, fun es t c x hreached hc hx => ?_⟩
  · have hstart : Reached index s (.any nested) [] e := ⟨hs, .new, trivial⟩
    obtain ⟨es, hafter, -⟩ := hstart.after ha.routine fun v _ => ha.binds v
    exact ⟨es, hafter⟩
  · obtain rfl : c = s.through es := Option.some.inj (hc.symm.trans hreached.site)
    obtain ⟨hbinder, -, -, hlimit⟩ := s.through_same es
    rw [← hbinder] at hx
    refine ⟨fun v hv => ⟨rejects_of_not_found hc hx hv, fun r hr host' => ?_⟩, ?_, fun hroom => ?_⟩
    · exact exec_execute_of_found host' hc hr
    · constructor
      · intro hall
        rw [Site.ruleCount, List.length_eq_zero_iff, List.eq_nil_iff_forall_not_mem]
        intro r hr
        -- a rule that is kept is found for a row that should have been rejected
        obtain ⟨u, -, happlies⟩ := hreached.kept hnew hr
        obtain ⟨v, hv, hfound⟩ :=
          RuleCache.exists_miscounted hr happlies x.operation.operandCount
        rw [(rejects_iff hc hx hv).mp (hall v hv)] at hfound
        cases hfound
      · intro hnone v hv
        have hrules : (s.through es).cache.rules = [] := List.length_eq_zero_iff.mp hnone
        exact rejects_of_not_found hc hx hv (by rw [RuleCache.find?, hrules]; rfl)
    · have hwithin := (hnew.consistent es).ordered.within
      rw [hlimit, hroom] at hwithin
      exact Nat.le_zero.mp hwithin

/-- A member of nil is read and the rules are forgotten: rows of any other length than one are
rejected again. -/
theorem miscounted_rejected_reset :
    ∃ e c, e = after smallHost 0 (smallEngine (.getMember ⟨"x", false⟩) 4)
        [.execute [.nil], .reset] ∧
      e.sites[0]? = some c ∧
      ∀ v : List Value, v.length ≠ 1 → Rejects 0 c (.getMember ⟨"x", false⟩) v e := by
  have hsite : (smallEngine (.getMember ⟨"x", false⟩) 4).sites[0]? =
      some (smallSite (.getMember ⟨"x", false⟩) 4) := rfl
  have habides : Abides smallHost 0 (smallSite (.getMember ⟨"x", false⟩) 4) True :=
    nestedHost_abides 0
  obtain ⟨hsteps, hat⟩ := miscounted_rejected_iff hsite ⟨rfl, rfl, rfl⟩ habides
  obtain ⟨es, hreached⟩ := hsteps [.execute [.nil], .reset]
  obtain ⟨c, hc, hcount⟩ : ∃ c, (after smallHost 0 (smallEngine (.getMember ⟨"x", false⟩) 4)
      [.execute [.nil], .reset]).sites[0]? = some c ∧ c.ruleCount = 0 := ⟨_, rfl, rfl⟩
  have hx : (after smallHost 0 (smallEngine (.getMember ⟨"x", false⟩) 4)
      [.execute [.nil], .reset]).backdrop ⟨0, 0⟩ =
        some (smallBackdrop (.getMember ⟨"x", false⟩)) := rfl
  obtain ⟨-, hall, -⟩ := hat es _ c _ hreached hc hx
  exact ⟨_, c, rfl, hc, hall.mpr hcount⟩

/-- Before that they are not: the rule that was kept for nil is run on nil and an integer, and the
program is told what it is told about nil. -/
theorem not_rejected_after_nil :
    let e := after smallHost 0 (smallEngine (.getMember ⟨"x", false⟩) 4) [.execute [.nil]]
    [Value.nil, .integer 5].length ≠ (Operation.getMember ⟨"x", false⟩).operandCount ∧
      ((execute smallHost 0 [.nil, .integer 5]).exec e).1 =
        .ok (.error (.raised "attempt to index a nil value")) ∧
      ∀ c, e.sites[0]? = some c →
        ¬ Rejects 0 c (.getMember ⟨"x", false⟩) [.nil, .integer 5] e := by
  intro e
  have hran : ((execute smallHost 0 [.nil, .integer 5]).exec e).1 =
      .ok (.error (.raised "attempt to index a nil value")) := rfl
  refine ⟨by decide, hran, fun c _ hrejects => ?_⟩
  rw [hrejects smallHost] at hran
  cases hran

end Engine

end Dispatch
