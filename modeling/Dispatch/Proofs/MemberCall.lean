import Dispatch.Proofs.Redirect

/-!
# Who counts the calls of members

A binder that calls members and the one that calls values with the same shape were shared together,
and the first hands over to the second what it binds for functions. So all that tells them apart is
the tallies: through the binder that calls members a rule for a function is counted where calls of
values are counted, and a rule for nil where calls of the member are (`exec_bind_around`).

One execution adds to the two tallies the rule that is bound in it, if one is (`execute_tallied`),
so a run adds all the rules that are bound along it, each to the tally that is credited
(`after_tallied`). This is meant of hosts that are `Frugal`: they count nothing there themselves.

In the runtime: `InvokeMemberBinder.bind` and the `BinderStats` of its `fallback_invoke`.

Main statement: `member_call_redirects`, about two binders that a dispatcher once shared.
-/

namespace Dispatch

variable {σ : Type}

/-- Counts rules, one after the other. -/
def Tally.countRules (t : Tally) (bound : List (List Value × Rule)) : Tally :=
  bound.foldl (fun t p => t.countRule p.2) t

theorem Tally.countRules_append (t : Tally) (bound bound' : List (List Value × Rule)) :
    t.countRules (bound ++ bound') = (t.countRules bound).countRules bound' :=
  List.foldl_append

@[simp] theorem Tally.rules_countRules (t : Tally) (bound : List (List Value × Rule)) :
    (t.countRules bound).rules = t.rules + bound.length := by
  induction bound generalizing t with
  | nil => rfl
  | cons p bound ih =>
    have hfirst : (t.countRule p.2).rules = t.rules + 1 := rfl
    have hrest := ih (t.countRule p.2)
    rw [hfirst] at hrest
    show ((t.countRule p.2).countRules bound).rules = t.rules + (bound.length + 1)
    omega

namespace Engine

variable {r : Detour} {host : Host σ} {e t u : Engine σ} {v : List Value}

/-- The binder whose tally is credited, where a rule is bound for a call of the member. -/
def Detour.creditee (r : Detour) (v : List Value) : Nat :=
  if v.head?.any Value.isNil then r.around else r.straight

theorem Detour.creditee_eq_around_iff (hne : r.around ≠ r.straight) :
    r.creditee v = r.around ↔ v.head?.any Value.isNil = true := by
  unfold creditee
  split
  next hnil => exact iff_of_true rfl hnil
  next hnil => exact iff_of_false hne.symm hnil

theorem Detour.creditee_eq_straight_iff (hne : r.around ≠ r.straight) (hv : r.call.Fits v) :
    r.creditee v = r.straight ↔ v.head?.any (·.callable?.isSome) = true := by
  obtain ⟨target, args, rfl, -, rfl | ⟨c, rfl⟩⟩ := hv
  · exact iff_of_false hne Bool.false_ne_true
  · exact iff_of_true rfl rfl

/-- The two binders of the detour are there, and the one that calls the member hands over to the one
that calls the value. -/
def Joined (r : Detour) (e : Engine σ) : Prop :=
  ∃ d, e.dispatchers[r.dispatcher]? = some d ∧
    d.Serves r.around (.invokeMember r.member r.call) (some r.straight) ∧
    ∃ direct, d.Serves r.straight (.invoke r.call) direct

theorem Joined.of_lasts (h : Joined r e) (hl : e.Lasts t) : Joined r t := by
  obtain ⟨d, hd, haround, direct, hstraight⟩ := h
  obtain ⟨d', hd', hretains⟩ := hl.dispatchers r.dispatcher d hd
  exact ⟨d', hd', hretains.binders _ _ _ haround, direct, hretains.binders _ _ _ hstraight⟩

/-- To bind a call of the member takes the verdict on the call of the value, whoever the host is,
and all that comes on top is that the rule is counted: for a function where calls of the value are
counted, for nil where calls of the member are. -/
theorem exec_bind_around (h : Joined r e) (hv : r.call.Fits v) (host : Host σ)
    (fallback : Option Rule) : ∃ d, e.dispatchers[r.dispatcher]? = some d ∧
      (bind host ⟨r.dispatcher, r.around⟩ (v.map .known) fallback).exec e =
        match ((Operation.invoke r.call).judge
            ⟨host.resolver r.dispatcher, d.types, d.emptyResult⟩ (v.map .known)).exec e with
        | (.ok verdict, t) =>
          (.ok (.bound (verdict.rule fallback)), { t with
            dispatchers := t.dispatchers.modify r.dispatcher
              (·.modifyTally (r.creditee v) (·.countRule (verdict.rule fallback))) })
        | (.error p, t) => (.error p, t) := by
  obtain ⟨d, hd, ⟨tally, hb⟩, -⟩ := h
  have hknown := Operand.isKnown_of_mem_map_known v
  obtain ⟨target, args, hoperands, hhead, hcount, htarget⟩ := hv.operands
  have hcreditee : Binder.creditee r.around
      ⟨.invokeMember r.member r.call, some r.straight, tally⟩ (.known target :: args) =
        r.creditee v := by
    simp only [Binder.creditee, Detour.creditee, hhead, Operand.callable?_known, Option.any_some,
      Option.getD_some]
    rcases htarget with hnil | hcallable
    · rw [Operand.isNil_known] at hnil
      rw [Value.eq_nil_of_isNil hnil]
      rfl
    · rw [Operand.callable?_known] at hcallable
      obtain ⟨c, hc⟩ := Option.isSome_iff_exists.mp hcallable
      rw [Value.callable?_eq_some.mp hc]
      rfl
  have hbind : (bind host ⟨r.dispatcher, r.around⟩ (v.map .known) fallback).exec e = _ :=
    exec_bind_of_known hd hb hcount hknown
  rw [hoperands, hcreditee, Operation.judge_invokeMember args htarget] at hbind
  rw [hoperands]
  exact ⟨d, hd, hbind⟩

/-- Things last from `e` to `t`, and what the two binders counted in between is these rules, each in
the tally that is credited. -/
structure Tallied (r : Detour) (bound : List (List Value × Rule)) (e t : Engine σ) : Prop where
  lasts : e.Lasts t
  tallies : ∀ c, c = r.around ∨ c = r.straight →
    t.tally? ⟨r.dispatcher, c⟩ = (e.tally? ⟨r.dispatcher, c⟩).map
      (·.countRules (bound.filter fun p => r.creditee p.1 = c))

namespace Tallied

theorem of_same (hl : e.Lasts t) (hd : t.dispatchers = e.dispatchers) : Tallied r [] e t where
  lasts := hl
  tallies c _ := by
    show t.tally? ⟨r.dispatcher, c⟩ = (e.tally? ⟨r.dispatcher, c⟩).map id
    rw [Option.map_id_fun, id, tally?, tally?, hd]

theorem refl (e : Engine σ) : Tallied r [] e e :=
  of_same (.refl e) rfl

theorem trans {bound bound' : List (List Value × Rule)} (h : Tallied r bound e t)
    (h' : Tallied r bound' t u) : Tallied r (bound ++ bound') e u where
  lasts := h.lasts.trans h'.lasts
  tallies c hc := by
    rw [h'.tallies c hc, h.tallies c hc, Option.map_map, List.filter_append]
    congr 1
    funext y
    exact (y.countRules_append _ _).symm

/-- A rule is counted. -/
theorem count (v : List Value) (rule : Rule) (e : Engine σ) :
    Tallied r [(v, rule)] e { e with
      dispatchers := e.dispatchers.modify r.dispatcher
        (·.modifyTally (r.creditee v) (·.countRule rule)) } where
  lasts := .of_dispatcher fun d _ => .modifyTally d _ _
  tallies c hc := by
    have hcounted := tally?_modifyTally e ⟨r.dispatcher, r.creditee v⟩ ⟨r.dispatcher, c⟩
      (·.countRule rule)
    rw [hcounted]
    by_cases hv : r.creditee v = c
    · subst hv
      rw [if_pos rfl, List.filter_cons_of_pos (by simp)]
      rfl
    · rw [if_neg (fun h => hv (BinderRef.mk.inj h).2.symm),
        List.filter_cons_of_neg (by simpa using hv)]
      show _ = (e.tally? ⟨r.dispatcher, c⟩).map id
      rw [Option.map_id_fun, id]

end Tallied

/-- A host that counts nothing where the two binders of the detour do. Of the resolver only that is
meant which calls of functions need. -/
structure Frugal (r : Detour) (host : Host σ) : Prop where
  resolver : ∀ formal args invoke, Act.Within (Tallied r [])
    ((host.resolver r.dispatcher).bindParameters formal r.call args invoke)
  routine : ∀ i args, Run.Within (Tallied r []) (host.routine i args)

/-- An action that works with what the host keeps for itself counts nothing. -/
theorem Inward.within {α : Type} {x : Act (Engine σ) α} (h : Inward x) :
    Act.Within (Tallied r []) x := by
  intro e
  obtain ⟨g, hg⟩ := h
  rw [hg]
  exact .of_same (.of_eq rfl rfl) rfl

/-- A host that keeps to itself is frugal. -/
theorem Frugal.of_inward (hr : ∀ formal args invoke,
      Inward ((host.resolver r.dispatcher).bindParameters formal r.call args invoke))
    (hs : Secluded host) : Frugal r host where
  resolver formal args invoke := (hr formal args invoke).within
  routine i args := (hs.inward i args).within

/-- The detour is there, and its call site calls the member. -/
structure Routed (r : Detour) (e : Engine σ) : Prop where
  joined : Joined r e
  site : ∃ s, e.sites[r.index]? = some s ∧ s.binder = ⟨r.dispatcher, r.around⟩

theorem Routed.of_lasts (h : Routed r e) (hl : e.Lasts t) : Routed r t where
  joined := h.joined.of_lasts hl
  site := by
    obtain ⟨s, hs, hb⟩ := h.site
    obtain ⟨cache, hits, misses, hs'⟩ := hl.sites r.index s hs
    exact ⟨_, hs', hb⟩

/-- The rule that an execution binds, with the operands it binds it for; none if one is found, or
binding panics. -/
def boundFor (host : Host σ) (index : Nat) (v : List Value) (e : Engine σ) :
    List (List Value × Rule) :=
  match e.sites[index]?, ((ruleFor host index v).exec e).1 with
  | some s, .ok rule => if (s.cache.find? v).isNone then [(v, rule)] else []
  | _, _ => []

/-- The rules that are bound along some steps at a call site. -/
def boundIn (host : Host σ) (index : Nat) (e : Engine σ) : List Step → List (List Value × Rule)
  | [] => []
  | .execute v :: steps =>
    boundFor host index v e ++ boundIn host index ((perform host index (.execute v)).exec e).2 steps
  | .reset :: steps => boundIn host index ((perform host index .reset).exec e).2 steps

section BoundFor

variable {index : Nat} {s : Site} {rule : Rule}

theorem boundFor_of_found (hs : e.sites[index]? = some s) (hfound : s.cache.find? v = some rule) :
    boundFor host index v e = [] := by
  simp [boundFor, hs, hfound, exec_ruleFor_of_found hs hfound]

theorem boundFor_of_bound (hs : e.sites[index]? = some s) (hfound : s.cache.find? v = none)
    (hrule : (ruleFor host index v).exec e = (.ok rule, t)) :
    boundFor host index v e = [(v, rule)] := by
  simp [boundFor, hs, hfound, hrule]

theorem boundFor_of_panic {p : Panic} (hrule : (ruleFor host index v).exec e = (.error p, t)) :
    boundFor host index v e = [] := by
  rw [boundFor, hrule]
  cases e.sites[index]? <;> rfl

theorem eq_of_mem_boundFor {p : List Value × Rule} (h : p ∈ boundFor host index v e) :
    p.1 = v := by
  unfold boundFor at h
  split at h
  next =>
    split at h
    next => rw [List.mem_singleton.mp h]
    next => cases h
  next => cases h

end BoundFor

/-- Rules are bound for what is executed. -/
theorem execute_mem_of_mem_boundIn {index : Nat} {p : List Value × Rule} {steps : List Step}
    (h : p ∈ boundIn host index e steps) : .execute p.1 ∈ steps := by
  induction steps generalizing e with
  | nil => cases h
  | cons step steps ih =>
    cases step with
    | execute v =>
      rcases List.mem_append.mp h with hfirst | hrest
      · rw [eq_of_mem_boundFor hfirst]
        exact List.mem_cons_self
      · exact List.mem_cons_of_mem _ (ih hrest)
    | reset => exact List.mem_cons_of_mem _ (ih h)

section Frugality

variable (hf : Frugal r host)
include hf

/-- Nothing is counted on the way to the verdict on a call of a value. -/
theorem judge_tallied (types : Registry) (emptyResult : Value) {target : Operand}
    (args : List Operand) (htarget : target.isNil = true ∨ target.callable?.isSome = true) :
    Act.Within (Tallied r []) ((Operation.invoke r.call).judge
      ⟨host.resolver r.dispatcher, types, emptyResult⟩ (target :: args)) := by
  rcases Operation.judge_invoke_cases args htarget
    (⟨host.resolver r.dispatcher, types, emptyResult⟩ : Scope (Engine σ)) with
    ⟨verdict, hverdict⟩ | ⟨formal, invoke, conclude, hverdict⟩
  · rw [hverdict]
    exact Act.within_pure .refl verdict
  · rw [hverdict]
    exact Act.within_bind (R := Tallied r []) .trans (hf.resolver formal args invoke) fun answer =>
      Act.within_pure .refl (conclude answer)

/-- To bind a call of the member counts the rule that is bound. If none is, binding panicked. -/
theorem bind_tallied (h : Joined r e) (hv : r.call.Fits v) (fallback : Option Rule) :
    (∃ rule t, (bind host ⟨r.dispatcher, r.around⟩ (v.map .known) fallback).exec e =
        (.ok (.bound rule), t) ∧ Tallied r [(v, rule)] e t) ∨
      ∃ p t, (bind host ⟨r.dispatcher, r.around⟩ (v.map .known) fallback).exec e =
        (.error p, t) ∧ Tallied r [] e t := by
  obtain ⟨d, hd, hbind⟩ := exec_bind_around h hv host fallback
  obtain ⟨target, args, hoperands, -, -, htarget⟩ := hv.operands
  have hjudged := judge_tallied hf d.types d.emptyResult args htarget e
  rw [hbind, hoperands]
  cases hverdict : ((Operation.invoke r.call).judge
      ⟨host.resolver r.dispatcher, d.types, d.emptyResult⟩ (.known target :: args)).exec e with
  | mk answer t =>
    rw [hverdict] at hjudged
    cases answer with
    | error p => exact .inr ⟨p, t, rfl, hjudged⟩
    | ok verdict =>
      exact .inl ⟨verdict.rule fallback, _, rfl, hjudged.trans (.count v (verdict.rule fallback) t)⟩

/-- A rule that is found is not counted, and one that is bound is. -/
theorem ruleFor_tallied (h : Routed r e) (hv : r.call.Fits v) :
    Tallied r (boundFor host r.index v e) e ((ruleFor host r.index v).exec e).2 := by
  obtain ⟨s, hs, hb⟩ := h.site
  cases hfound : s.cache.find? v with
  | some rule =>
    rw [boundFor_of_found hs hfound, exec_ruleFor_of_found hs hfound]
    exact .of_same ((admits_lasts host).counts e r.index s (s.hits + 1) s.misses hs) rfl
  | none =>
    have hmiss := (admits_lasts host).counts e r.index s s.hits (s.misses + 1) hs
    have hmissed : Tallied r [] e { e with sites := e.sites.modify r.index fun _ =>
        { s with misses := s.misses + 1 } } := .of_same hmiss rfl
    have hbinding := bind_tallied hf (h.joined.of_lasts hmiss) hv s.fallback
    rw [← hb] at hbinding
    rcases hbinding with ⟨rule, t, hbind, hbound⟩ | ⟨p, t, hbind, hpanicked⟩
    · have hrule : (ruleFor host r.index v).exec e =
          (.ok rule, { t with sites := t.sites.modify r.index (·.keep rule v) }) := by
        rw [exec_ruleFor_of_not_found hs hfound, hbind]
      have hkept : Tallied r [] t { t with sites := t.sites.modify r.index (·.keep rule v) } :=
        .of_same (.of_keep t r.index rule v) rfl
      rw [boundFor_of_bound hs hfound hrule, hrule]
      exact hmissed.trans (hbound.trans hkept)
    · have hrule : (ruleFor host r.index v).exec e = (.error p, t) := by
        rw [exec_ruleFor_of_not_found hs hfound, hbind]
      rw [boundFor_of_panic hrule, hrule]
      exact hmissed.trans hpanicked

/-- An execution counts the rule that it binds, whatever runs then. -/
theorem execute_tallied (h : Routed r e) (hv : r.call.Fits v) :
    Tallied r (boundFor host r.index v e) e ((execute host r.index v).exec e).2 := by
  have hrule := ruleFor_tallied hf h hv
  rw [exec_execute]
  cases hruleFor : (ruleFor host r.index v).exec e with
  | mk answer t =>
    rw [hruleFor] at hrule
    cases answer with
    | error p => exact hrule
    | ok rule =>
      have hpack := pack_within (σ := σ) (R := Tallied r []) .refl fun _ _ =>
        .of_same (.of_eq rfl rfl) rfl
      have hrun := Fragment.evaluate_within (R := Tallied r []) .refl .trans
        (call_within hf.routine hpack) v rule.fragment t
      rw [← List.append_nil (boundFor host r.index v e)]
      exact hrule.trans hrun

/-- Steps count the rules that are bound along them. -/
theorem after_tallied (h : Routed r e) {steps : List Step}
    (hsteps : ∀ v, .execute v ∈ steps → r.call.Fits v) :
    Tallied r (boundIn host r.index e steps) e (after host r.index e steps) := by
  induction steps generalizing e with
  | nil => exact .refl e
  | cons step steps ih =>
    have hrest : ∀ v, .execute v ∈ steps → r.call.Fits v := fun v hv =>
      hsteps v (List.mem_cons_of_mem _ hv)
    cases step with
    | execute v =>
      have hfirst : Tallied r (boundFor host r.index v e) e
          ((perform host r.index (.execute v)).exec e).2 := by
        rw [exec_perform_execute]
        exact execute_tallied hf h (hsteps v List.mem_cons_self)
      exact hfirst.trans (ih (h.of_lasts hfirst.lasts) hrest)
    | reset =>
      have hfirst : Tallied r [] e ((perform host r.index .reset).exec e).2 :=
        .of_same ((admits_lasts host).reset e r.index) rfl
      exact hfirst.trans (ih (h.of_lasts hfirst.lasts) hrest)

/-- Along steps the tally of the values grows by the rules that are bound for functions, and the
tally of the member by those that are bound for nil. -/
theorem tallies_after (h : Routed r e) (hne : r.around ≠ r.straight) {steps : List Step}
    (hsteps : ∀ v, .execute v ∈ steps → r.call.Fits v) :
    (after host r.index e steps).tally? ⟨r.dispatcher, r.straight⟩ =
        (e.tally? ⟨r.dispatcher, r.straight⟩).map (·.countRules
          ((boundIn host r.index e steps).filter (·.1.head?.any (·.callable?.isSome)))) ∧
      (after host r.index e steps).tally? ⟨r.dispatcher, r.around⟩ =
        (e.tally? ⟨r.dispatcher, r.around⟩).map (·.countRules
          ((boundIn host r.index e steps).filter (·.1.head?.any Value.isNil))) := by
  have htallied := after_tallied hf h hsteps
  -- who is credited tells calls of functions from calls of nil
  have hfunctions : ∀ p ∈ boundIn host r.index e steps,
      decide (r.creditee p.1 = r.straight) = p.1.head?.any (·.callable?.isSome) := fun p hp =>
    Bool.eq_iff_iff.mpr (decide_eq_true_iff.trans
      (Detour.creditee_eq_straight_iff hne (hsteps p.1 (execute_mem_of_mem_boundIn hp))))
  have hnil : ∀ p ∈ boundIn host r.index e steps,
      decide (r.creditee p.1 = r.around) = p.1.head?.any Value.isNil := fun p _ =>
    Bool.eq_iff_iff.mpr (decide_eq_true_iff.trans (Detour.creditee_eq_around_iff hne))
  rw [← List.filter_congr hfunctions, ← List.filter_congr hnil]
  exact ⟨htallied.tallies r.straight (.inr rfl), htallied.tallies r.around (.inl rfl)⟩

end Frugality

theorem exec_newSite_of_serves {i n : Nat} {d : Dispatcher} (hd : e.dispatchers[i]? = some d)
    {op : Operation} {direct : Option Nat} (hn : d.Serves n op direct) (maxRules : Nat)
    (fallback : Option Rule) :
    (newSite ⟨i, n⟩ maxRules fallback).exec e = (.ok e.sites.size, { e with
      sites := e.sites.push { binder := ⟨i, n⟩, kind := op.kind, fallback, maxRules } }) := by
  obtain ⟨tally, hb⟩ := hn
  rw [exec_newSite hd hb]

/-- Two call sites that are new, one of which calls the member and the other the value, are the same
but for that. -/
theorem redirected_newSite {i n k : Nat} {m : MemberName} {call : CallShape} {d : Dispatcher}
    (hd : e.dispatchers[i]? = some d) {direct direct' : Option Nat}
    (hn : d.Serves n (.invokeMember m call) direct) (hk : d.Serves k (.invoke call) direct')
    (s : Site) :
    Redirected ⟨e.sites.size, i, m, call, n, k⟩
      { e with sites := e.sites.push { s with binder := ⟨i, n⟩, kind := .invokeMember } }
      { e with sites := e.sites.push { s with binder := ⟨i, k⟩, kind := .invoke } } where
  fresh := rfl
  host := rfl
  dispatchers := rfl
  site := ⟨s, Array.getElem?_push_size, Array.getElem?_push_size⟩
  others j hj := by
    show (e.sites.push _)[j]? = (e.sites.push _)[j]?
    rw [Array.getElem?_push, Array.getElem?_push, if_neg hj, if_neg hj]
  member := ⟨d, direct, hd, hn⟩
  value := ⟨d, direct', hd, hk⟩

/-- Calls of a member whose targets are functions or nil are calls of values. Take the binders that
a dispatcher shared, whatever it was asked for before, for the member and for the values with the
same shape, and a call site for each, with any limit and any rule to fall back to. On a host that
does not look at which of the two it is, steps at the two call sites come to the same, one by one,
and the call sites look the same all the time; and so does what the host keeps for itself, with all
that the resolver is asked written down or without.

The tallies tell them apart. At any time and on any host the binder for the member counts a rule for
a function where calls of values are counted, and a rule for nil itself. So, on a host that counts
nothing there, steps at the call site for the member add to the tally of the values just the rules
that are bound for functions, and to the tally of the member just those that are bound for nil. -/
theorem member_call_redirects (settings : Settings) (types : Registry) (storage : Identity)
    (history : List Dispatcher.Demand) {m : MemberName} {call : CallShape} {n k : Nat}
    (hn : (.invokeMember m call, n) ∈ ((Dispatcher.new settings types storage).after history).table)
    (hk : (.invoke call, k) ∈ ((Dispatcher.new settings types storage).after history).table)
    {i : Nat} {d : Dispatcher} (hd : e.dispatchers[i]? = some d)
    (hr : ((Dispatcher.new settings types storage).after history).Retains d)
    (maxRules : Nat) (fallback : Option Rule)
    (hh : Oblivious ⟨e.sites.size, i, m, call, n, k⟩ host) {steps : List Step}
    (hsteps : ∀ v, .execute v ∈ steps → call.Fits v) :
    ∃ e₁ e₂ : Engine σ,
      (newSite ⟨i, n⟩ maxRules fallback).exec e = (.ok e.sites.size, e₁) ∧
      (newSite ⟨i, k⟩ maxRules fallback).exec e = (.ok e.sites.size, e₂) ∧
      watched host e.sites.size e₁ steps = watched host e.sites.size e₂ steps ∧
      (∀ j : Journal σ, watched (host.journaled j) e.sites.size e₁ steps =
        watched (host.journaled j) e.sites.size e₂ steps) ∧
      (∀ t : Engine σ, e₁.Lasts t → ∀ v, call.Fits v → ∀ (host : Host σ) (fallback : Option Rule),
        ∃ d, t.dispatchers[i]? = some d ∧
          (bind host ⟨i, n⟩ (v.map .known) fallback).exec t =
            match ((Operation.invoke call).judge ⟨host.resolver i, d.types, d.emptyResult⟩
              (v.map .known)).exec t with
            | (.ok verdict, u) => (.ok (.bound (verdict.rule fallback)), { u with
                dispatchers := u.dispatchers.modify i
                  (·.modifyTally (if v.head?.any Value.isNil then n else k)
                    (·.countRule (verdict.rule fallback))) })
            | (.error p, u) => (.error p, u)) ∧
      (Frugal ⟨e.sites.size, i, m, call, n, k⟩ host →
        (after host e.sites.size e₁ steps).tally? ⟨i, k⟩ = (e₁.tally? ⟨i, k⟩).map
          (·.countRules ((boundIn host e.sites.size e₁ steps).filter
            (·.1.head?.any (·.callable?.isSome)))) ∧
        (after host e.sites.size e₁ steps).tally? ⟨i, n⟩ = (e₁.tally? ⟨i, n⟩).map
          (·.countRules ((boundIn host e.sites.size e₁ steps).filter
            (·.1.head?.any Value.isNil)))) := by
  have horderly := Dispatcher.orderly_after (Dispatcher.orderly_new settings types storage) history
  have hwired := (Dispatcher.Wired.new settings types storage).after history
  -- the two binders are linked, and they still are in the engine
  have haround := hr.binders _ _ _ (hwired.of_call horderly hk hn)
  obtain ⟨direct, hmade⟩ := hwired.made _ k (Dispatcher.mem_shared_invoke hk)
  have hstraight := hr.binders _ _ _ hmade
  have hne : n ≠ k := by
    rintro rfl
    cases haround.operation_eq hstraight
  let r : Detour := ⟨e.sites.size, i, m, call, n, k⟩
  let s : Site := { binder := ⟨i, n⟩, kind := .invokeMember, fallback, maxRules }
  let e₁ : Engine σ := { e with sites := e.sites.push s }
  let e₂ : Engine σ :=
    { e with sites := e.sites.push { s with binder := ⟨i, k⟩, kind := .invoke } }
  have hnew : Redirected r e₁ e₂ := redirected_newSite hd haround hstraight s
  have hrouted : Routed r e₁ :=
    ⟨⟨d, hd, haround, direct, hstraight⟩, s, Array.getElem?_push_size, rfl⟩
  refine ⟨e₁, e₂, exec_newSite_of_serves hd haround maxRules fallback,
    exec_newSite_of_serves hd hstraight maxRules fallback, watched_redirected hh hnew hsteps,
    fun j => watched_redirected (hh.journaled j) hnew hsteps,
    fun t ht v hv host fallback => exec_bind_around (hrouted.joined.of_lasts ht) hv host fallback,
    fun hf => tallies_after hf hrouted hne hsteps⟩

end Engine

/-- An engine whose dispatcher was asked for the binder that calls a member with one argument. -/
def redirectingEngine : Engine Nat where
  dispatchers := #[(Dispatcher.new {} .initial ⟨0⟩).after
    [.request (.invokeMember ⟨"run", false⟩ (.positional 1))]]
  fresh := 1
  host := 0

/-- A function and nil are called, each a second time, and another function after a reset. -/
def redirectedSteps : List Engine.Step :=
  [.execute [.callable full, .integer 7], .execute [.nil, .integer 7],
    .execute [.callable full, .integer 8], .execute [.nil, .text "seven"], .reset,
    .execute [.callable short, .integer 7]]

/-- Whether the functions are called as members or as values is not seen, and only the rules for nil
are counted for the member. -/
theorem member_call_redirects_ticking : ∃ e₁ e₂ : Engine Nat,
    (Engine.newSite ⟨0, 1⟩ 2 none).exec redirectingEngine = (.ok 0, e₁) ∧
    (Engine.newSite ⟨0, 0⟩ 2 none).exec redirectingEngine = (.ok 0, e₂) ∧
    Engine.watched tickingHost 0 e₁ redirectedSteps =
      Engine.watched tickingHost 0 e₂ redirectedSteps ∧
    (Engine.watched tickingHost 0 e₂ redirectedSteps).getLast?.map (·.2) =
      some (some ⟨.monomorphic, 1, 2, 3⟩, 2) ∧
    ((Engine.after tickingHost 0 e₁ redirectedSteps).tally? ⟨0, 0⟩).map Tally.rules = some 2 ∧
    ((Engine.after tickingHost 0 e₁ redirectedSteps).tally? ⟨0, 1⟩).map Tally.rules = some 1 := by
  have hinward : ∀ formal args invoke, Engine.Inward ((tickingHost.resolver 0).bindParameters formal
      (.positional 1) args invoke) := fun formal args invoke =>
    Engine.inward_of_pure (smallResolver_pure.bindParameters formal (.positional 1) args invoke)
  have hsteps : ∀ v, .execute v ∈ redirectedSteps → (CallShape.positional 1).Fits v := by
    intro v hv
    simp only [redirectedSteps, List.mem_cons, Engine.Step.execute.injEq, reduceCtorEq,
      List.not_mem_nil, or_false, false_or] at hv
    rcases hv with rfl | rfl | rfl | rfl | rfl
    all_goals exact ⟨_, _, rfl, rfl, by simp⟩
  obtain ⟨e₁, e₂, h₁, h₂, hwatched, -, -, htallies⟩ := Engine.member_call_redirects {} .initial ⟨0⟩
    [.request (.invokeMember ⟨"run", false⟩ (.positional 1))] (m := ⟨"run", false⟩)
    (n := 1) (k := 0) (by decide) (by decide) (e := redirectingEngine) (i := 0) rfl (.refl _) 2 none
    (.of_inward hinward tickingHost_secluded) hsteps
  obtain ⟨hvalues, hmembers⟩ := htallies (.of_inward hinward tickingHost_secluded)
  refine ⟨e₁, e₂, h₁, h₂, hwatched, ?_⟩
  obtain rfl : e₁ = ((Engine.newSite ⟨0, 1⟩ 2 none).exec redirectingEngine).2 :=
    congrArg Prod.snd h₁.symm
  have hsize : redirectingEngine.sites.size = 0 := rfl
  rw [hsize] at hwatched hvalues hmembers
  rw [← hwatched, hvalues, hmembers, Option.map_map, Option.map_map]
  -- what the tallies grew by is how many rules were bound for functions and for nil
  simp only [Function.comp_def, Tally.rules_countRules]
  decide +kernel

end Dispatch
