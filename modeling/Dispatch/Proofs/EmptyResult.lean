import Dispatch.Proofs.CallResult
import Dispatch.Proofs.Unshared

/-!
# One empty result list

A dispatcher has one empty result list, and whatever delivers no values delivers that very list:
nil converted to a result list, and a call of what is declared to return nothing, once it has run
(`Engine.Hollow`). The list is written into the rule when the rule is bound, so it has to be the
right one whenever the rule is run: long after, kept by a call site, with other operands, when the
binder is no longer shared.

Dispatchers keep their empty lists (`Dispatcher.Retains`), so this is so for a rule that was bound
at a state that led to the present one. And the rules that call sites keep were all bound like that,
each by the binder of its own call site: that is the invariant, `Engine.Sourced`, and `Carries` is
the preorder of states along which it is kept.

In the runtime: `RuntimeContext.empty_result_fragment`, `ConvertBinder.convert_nil` and
`ensure_result`.

Main statement: `empty_result_shared`.
-/

namespace Dispatch

variable {σ : Type}

namespace Engine

/-- The rule was bound by the binder for operands with values, at a state that led to `t`. -/
def BoundBefore (host : Host σ) (t : Engine σ) (b : BinderRef) (fallback : Option Rule) (r : Rule) :
    Prop :=
  ∃ (e u : Engine σ) (operands : List Value),
    (bind host b (operands.map .known) fallback).exec e = (.ok (.bound r), u) ∧ e.Lasts t

/-- Every rule that a call site keeps was bound for it by its own binder. -/
def Sourced (host : Host σ) (t : Engine σ) : Prop :=
  ∀ (i : Nat) (s : Site) (r : Rule), t.sites[i]? = some s → r ∈ s.cache.rules →
    BoundBefore host t s.binder s.fallback r

/-- The later state `t` has what `e` had, and as before all rules come from binders. -/
structure Carries (host : Host σ) (e t : Engine σ) : Prop where
  lasts : e.Lasts t
  sourced : Sourced host e → Sourced host t

variable {host : Host σ} {e t u : Engine σ} {b : BinderRef} {fallback : Option Rule} {r : Rule}

theorem BoundBefore.mono (h : BoundBefore host t b fallback r) (ht : t.Lasts u) :
    BoundBefore host u b fallback r := by
  obtain ⟨e, u', operands, hbind, hlasts⟩ := h
  exact ⟨e, u', operands, hbind, hlasts.trans ht⟩

/-- Call sites may lose rules, and get rules that were bound for them. -/
theorem Sourced.of_sites (h : Sourced host e) (hlasts : e.Lasts t)
    (hsites : ∀ (i : Nat) (s' : Site), t.sites[i]? = some s' → ∀ r ∈ s'.cache.rules,
      BoundBefore host t s'.binder s'.fallback r ∨ ∃ s, e.sites[i]? = some s ∧
        s.binder = s'.binder ∧ s.fallback = s'.fallback ∧ r ∈ s.cache.rules) :
    Sourced host t := by
  intro i s' r hs' hr
  rcases hsites i s' hs' r hr with hbound | ⟨s, hs, hbinder, hfallback, hold⟩
  · exact hbound
  · rw [← hbinder, ← hfallback]
    exact (h i s r hs hold).mono hlasts

theorem Carries.of_sites_eq (hlasts : e.Lasts t) (hsites : t.sites = e.sites) :
    Carries host e t where
  lasts := hlasts
  sourced h := h.of_sites hlasts fun _ s' hs' _ hr =>
    .inr ⟨s', hsites ▸ hs', rfl, rfl, hr⟩

/-- One call site changes, and any rule that it gains was bound for it. -/
theorem Carries.of_modify {i : Nat} {f : Site → Site}
    (hlasts : e.Lasts { e with sites := e.sites.modify i f })
    (hf : ∀ s, e.sites[i]? = some s → (f s).binder = s.binder ∧ (f s).fallback = s.fallback ∧
      ∀ r ∈ (f s).cache.rules, r ∈ s.cache.rules ∨ BoundBefore host e s.binder s.fallback r) :
    Carries host e { e with sites := e.sites.modify i f } where
  lasts := hlasts
  sourced h := by
    refine h.of_sites hlasts fun j s' hs' r hr => ?_
    change (e.sites.modify i f)[j]? = some s' at hs'
    rw [Array.getElem?_modify] at hs'
    split at hs'
    next hij =>
      subst hij
      obtain ⟨s, hs, rfl⟩ := Option.map_eq_some_iff.mp hs'
      obtain ⟨hbinder, hfallback, hrules⟩ := hf s hs
      rcases hrules r hr with hold | hbound
      · exact .inr ⟨s, hs, hbinder.symm, hfallback.symm, hold⟩
      · rw [hbinder, hfallback]
        exact .inl (hbound.mono hlasts)
    next => exact .inr ⟨s', hs', rfl, rfl, hr⟩

/-- All that sessions do themselves keeps rules where they come from. -/
theorem admits_carries (host : Host σ) : Admits host (Carries host) where
  refl e := ⟨.refl e, id⟩
  trans h k := ⟨h.lasts.trans k.lasts, fun hs => k.sourced (h.sourced hs)⟩
  fresh _ _ := .of_sites_eq (.of_eq rfl rfl) rfl
  dispatcher e i f hf := .of_sites_eq (.of_dispatcher hf) rfl
  newSite e s hs := by
    refine ⟨.of_newSite e s, fun h => h.of_sites (.of_newSite e s) fun j s' hs' r hr => ?_⟩
    change (e.sites.push s)[j]? = some s' at hs'
    rw [Array.getElem?_push] at hs'
    split at hs'
    next =>
      -- the new call site keeps no rules
      cases hs'
      rw [hs] at hr
      cases hr
    next => exact .inr ⟨s', hs', rfl, rfl, hr⟩
  counts e i s hits misses hs := by
    refine .of_modify ((admits_lasts host).counts e i s hits misses hs) fun s' hs' => ?_
    obtain rfl := Option.some.inj (hs.symm.trans hs')
    exact ⟨rfl, rfl, fun r hr => .inl hr⟩
  reset e i := by
    refine .of_modify ((admits_lasts host).reset e i) fun s hs => ⟨rfl, rfl, fun r hr => ?_⟩
    cases hr
  keep e t i s operands r hs hbind hcarries := by
    refine .of_modify (.of_keep t i r operands) fun s' hs' => ?_
    obtain ⟨cache, hits, misses, hsame⟩ := hcarries.lasts.sites i s hs
    obtain rfl := Option.some.inj (hsame.symm.trans hs')
    have hbound : BoundBefore host t s.binder s.fallback r :=
      ⟨e, t, operands, hbind, hcarries.lasts⟩
    unfold Site.keep
    split
    next =>
      refine ⟨rfl, rfl, fun r' hr' => ?_⟩
      rcases RuleCache.mem_rules_record hr' with hold | rfl
      · exact .inl hold
      · exact .inr hbound
    next => exact ⟨rfl, rfl, fun r' hr' => .inl hr'⟩

/-- The rule that a call site runs was bound by its own binder, now or before. -/
theorem boundBefore_of_ruleFor (hh : host.Within (Carries host)) (ht : Sourced host t) {i : Nat}
    {s : Site} {w : List Value} (hs : t.sites[i]? = some s)
    (hrule : (ruleFor host i w).exec t = (.ok r, u)) :
    BoundBefore host u s.binder s.fallback r := by
  cases hfound : s.cache.find? w with
  | some q =>
    rw [exec_ruleFor_of_found hs hfound] at hrule
    cases hrule
    exact (ht i s r hs (List.mem_of_find?_eq_some hfound)).mono
      ((admits_lasts host).counts t i s (s.hits + 1) s.misses hs)
  | none =>
    rw [exec_ruleFor_of_not_found hs hfound] at hrule
    split at hrule
    next q v hbind =>
      cases hrule
      have hbinding := bind_within_admitted (admits_carries host) hh s.binder (w.map .known)
        s.fallback { t with sites := t.sites.modify i fun _ => { s with misses := s.misses + 1 } }
      rw [hbind] at hbinding
      exact ⟨_, v, w, hbind, hbinding.lasts.trans (.of_keep v i r w)⟩
    next => cases hrule
    next => cases hrule

/-- Bound by the binder `b` at the state `e`, the rule `r` delivers no values: it converts nil to a
result list, or it calls by the fragment `f` what is declared to return nothing. -/
inductive Hollow (host : Host σ) (e : Engine σ) (b : BinderRef) (r : Rule) : Option Fragment → Prop
  | converts {t : Ty} {target : Operand} {fallback : Option Rule} {u : Engine σ} :
    e.Offers b (.convert t) → (t == .result) = true → target.isNil = true →
    (bind host b [target] fallback).exec e = (.ok (.bound r), u) → Hollow host e b r none
  | calls {d : Dispatcher} {binder : Binder} {target : Operand} {rest : List Operand}
    {fallback : Option Rule} {q : Question} {a : q.Answer} {f : Fragment} {t u : Engine σ} :
    e.dispatchers[b.dispatcher]? = some d → d.binders[b.binder]? = some binder →
    (binder.operation.kind = .invoke ∨ binder.operation.kind = .invokeMember) →
    binder.operation.Asks d.types (target :: rest) q →
    ((host.resolver b.dispatcher).answer (target :: rest) q).exec e = (.ok a, t) →
    q.fragment? a = some f → f.type.isVoid = true →
    (bind host b (target :: rest) fallback).exec e = (.ok (.bound r), u) →
    Hollow host e b r (some f)

/-- What a run comes to that first does what the fragment does, if there is one, and delivers
`empty` if that does not fail. -/
def emptied (host : Host σ) (empty : Value) (w : List Value) (t : Engine σ) :
    Option Fragment → Except Panic (Outcome Value) × Engine σ
  | none => (.ok (.ok empty), t)
  | some f =>
    match (f.evaluate (call host) w).exec t with
    | (.ok (.ok _), u) => (.ok (.ok empty), u)
    | ended => ended

/-- Nil is converted to a result list by the rule that delivers the empty one. -/
theorem fragment_of_converts {d : Dispatcher} {binder : Binder} {ty : Ty} {target : Operand}
    (hd : e.dispatchers[b.dispatcher]? = some d) (hb : d.binders[b.binder]? = some binder)
    (hop : binder.operation = .convert ty) (hty : (ty == .result) = true)
    (hnil : target.isNil = true)
    (hbind : (bind host b [target] fallback).exec e = (.ok (.bound r), u)) :
    r.fragment = .constant d.emptyResult .result := by
  obtain ⟨-, verdict, u', hverdict, rfl⟩ := judged_of_bound hd hb hbind
  rw [hop, Operation.judge, if_pos hnil] at hverdict
  cases hverdict
  show Operation.nilAs d.emptyResult ty = _
  rw [Operation.nilAs, if_pos hty]

/-- Whenever it is run, and on whatever operands, a rule that delivers no values delivers the empty
list that its dispatcher had and has. -/
theorem Hollow.exec_run {f? : Option Fragment} (h : Hollow host e b r f?) (ht : e.Lasts t) :
    ∃ d d', e.dispatchers[b.dispatcher]? = some d ∧ t.dispatchers[b.dispatcher]? = some d' ∧
      d'.emptyResult = d.emptyResult ∧
      ∀ w, (r.run (call host) w).exec t = emptied host d.emptyResult w t f? := by
  cases h with
  | converts hoffers hty hnil hbind =>
    obtain ⟨d, direct, hd, tally, hb⟩ := hoffers
    obtain ⟨d', hd', hretains⟩ := ht.dispatchers b.dispatcher d hd
    refine ⟨d, d', hd, hd', hretains.emptyResult, fun w => ?_⟩
    rw [Rule.run, fragment_of_converts hd hb rfl hty hnil hbind]
    rfl
  | @calls d _ _ _ _ _ _ f _ _ hd hb hcall hasks ha hf hvoid hbind =>
    obtain ⟨d', hd', hretains⟩ := ht.dispatchers b.dispatcher d hd
    refine ⟨d, d', hd, hd', hretains.emptyResult, fun w => ?_⟩
    rw [Rule.run, rule_of_answered hd hb hbind hasks ha hf, fit_of_call hcall,
      Fragment.evaluate_returningResult_of_void hvoid, Run.exec_bind]
    simp only [emptied]
    rcases (f.evaluate (call host) w).exec t with ⟨_ | _ | _, _⟩ <;> rfl

/-- One empty result list. Let all rules that call sites keep at `e` come from binders, and let the
host do what sessions do. Then this stays so in every session. Each rule that a call site runs was
bound by its own binder, now or at some earlier state; and if it was bound there to deliver no
values, then the execution delivers the empty list of the dispatcher, after the fragment of a void
call has run just once and unless this failed. The same goes for all other ways to run such a rule,
then or later, on any operands. -/
theorem empty_result_shared (hh : host.Within (Carries host)) (he : Sourced host e) :
    (∀ supply handles moves,
      Carries host e (Session.run host supply ⟨e, handles⟩ moves).engine) ∧
    (∀ t, Carries host e t → ∀ i w r u, (ruleFor host i w).exec t = (.ok r, u) →
      Carries host e u ∧ (∃ s, t.sites[i]? = some s ∧ BoundBefore host u s.binder s.fallback r) ∧
      ∀ before b f?, Hollow host before b r f? → before.Lasts u →
        ∃ d, u.dispatchers[b.dispatcher]? = some d ∧
          (execute host i w).exec t = emptied host d.emptyResult w u f?) ∧
    ∀ before b r f?, Hollow host before b r f? → ∀ t, before.Lasts t →
      ∃ d d', before.dispatchers[b.dispatcher]? = some d ∧ t.dispatchers[b.dispatcher]? = some d' ∧
        d'.emptyResult = d.emptyResult ∧
        ∀ w, (r.run (call host) w).exec t = emptied host d.emptyResult w t f? := by
  refine ⟨fun supply handles moves => ?_, fun t ht i w r u hrule => ⟨?_, ?_, ?_⟩, ?_⟩
  · exact Session.within_run (admits_carries host) hh supply ⟨e, handles⟩ moves
  · have hcarries := ruleFor_within_admitted (admits_carries host) hh i w t
    rw [hrule] at hcarries
    exact (admits_carries host).trans ht hcarries
  · cases hs : t.sites[i]? with
    | none =>
      rw [exec_ruleFor_of_none hs] at hrule
      cases hrule
    | some s => exact ⟨s, rfl, boundBefore_of_ruleFor hh (ht.sourced he) hs hrule⟩
  · intro before b f? hhollow hlasts
    obtain ⟨d, d', -, hd', hempty, hrun⟩ := hhollow.exec_run hlasts
    refine ⟨d', hd', ?_⟩
    rw [exec_execute, hrule, hempty]
    exact hrun w
  · exact fun before b r f? hhollow t ht => hhollow.exec_run ht

end Engine

/-- Functions that return nothing. -/
def resetter (identity : Nat) : Callable :=
  .declared ⟨identity⟩ "reset" unaryType .void (.native 0)

/-- An engine with a binder for calls with one argument, and a call site for it. -/
def callingEngine : Engine Nat where
  dispatchers := #[{ Dispatcher.new {} .initial ⟨0⟩ with
    binders := #[{ operation := .invoke (.positional 1) }] }]
  sites := #[smallSite (.invoke (.positional 1)) 4]
  fresh := 1
  host := 0

/-- The call of a resetter, as the small resolver makes it. -/
def resettingCall : Fragment :=
  .invoke (.operand 0 unaryType) [.operand 1 .integer] .void

/-- The rule for calls of resetters with an integer. -/
def resettingRule : Rule :=
  ⟨resettingCall.returningResult (.result ⟨0⟩ []),
    (Operation.invoke (.positional 1)).fullGuard (.known (.callable (resetter 1)))
      [.known (.integer 7)]⟩

theorem tickingHost_carries : tickingHost.Within (Engine.Carries tickingHost) where
  resolver _ := Engine.smallResolver_within (Engine.admits_carries _).refl
    (Engine.admits_carries _).trans
  routine _ _ _ := .of_sites_eq (.of_eq rfl rfl) rfl

theorem sourced_callingEngine : Engine.Sourced tickingHost callingEngine := by
  intro i s r hs hr
  have hmem : s ∈ [smallSite (.invoke (.positional 1)) 4] :=
    List.mem_of_getElem? (Array.getElem?_toList ▸ hs)
  rw [List.mem_singleton.mp hmem] at hr
  cases hr

/-- One resetter is called, and the binders are dropped. Then the rule that was kept calls another
resetter, once, and delivers the same list. -/
theorem empty_result_shared_ticking :
    ∃ t u, t = (Session.run tickingHost .shared ⟨callingEngine, [⟨0, 0⟩]⟩
        [.execute 0 [.callable (resetter 1), .integer 7], .clear 0]).engine ∧
      (Engine.ruleFor tickingHost 0 [.callable (resetter 2), .integer 5]).exec t =
        (.ok resettingRule, u) ∧
      ∃ d, u.dispatchers[0]? = some d ∧
        (Engine.execute tickingHost 0 [.callable (resetter 2), .integer 5]).exec t =
          (.ok (.ok d.emptyResult), { u with host := u.host + 1 }) := by
  obtain ⟨hsession, hsites, -⟩ :=
    Engine.empty_result_shared tickingHost_carries sourced_callingEngine
  have hreached := hsession .shared [⟨0, 0⟩]
    [.execute 0 [.callable (resetter 1), .integer 7], .clear 0]
  obtain ⟨u, hrule⟩ : ∃ u, (Engine.ruleFor tickingHost 0
      [.callable (resetter 2), .integer 5]).exec (Session.run tickingHost .shared
        ⟨callingEngine, [⟨0, 0⟩]⟩
        [.execute 0 [.callable (resetter 1), .integer 7], .clear 0]).engine =
      (.ok resettingRule, u) := ⟨_, rfl⟩
  obtain ⟨hcarries, -, hhollow⟩ := hsites _ hreached 0 _ _ _ hrule
  obtain ⟨v, hbind⟩ : ∃ v, (Engine.bind tickingHost ⟨0, 0⟩
      [.known (.callable (resetter 1)), .known (.integer 7)] none).exec callingEngine =
      (.ok (.bound resettingRule), v) := ⟨_, rfl⟩
  have hasks : (Operation.invoke (.positional 1)).Asks .initial
      [.known (.callable (resetter 1)), .known (.integer 7)] (.bindParameters (resetter 1).formal
        (.positional 1) [.known (.integer 7)] (.invoke (.operand 0 unaryType) · .void)) :=
    .invoke rfl
  have hcalls : Engine.Hollow tickingHost callingEngine ⟨0, 0⟩ resettingRule
      (some resettingCall) := .calls rfl rfl (.inl rfl) hasks rfl rfl rfl hbind
  obtain ⟨d, hd, hexec⟩ := hhollow _ _ _ hcalls hcarries.lasts
  exact ⟨_, u, rfl, hrule, d, hd, hexec⟩

end Dispatch
