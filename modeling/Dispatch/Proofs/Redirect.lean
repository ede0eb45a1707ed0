import Dispatch.Proofs.Journal
import Dispatch.Proofs.Unshared

/-!
# Calls of members that are calls of values

Where the target is a function or nil, the verdict on the call of a member is the verdict on the
call of the value (`judge_invokeMember`): a function is called whatever the name of the member, and
nil is refused in the same words. So two call sites, one of which calls a member and the other the
value, bind the same rules, and what they keep, find and run is the same from then on.

To see this along whole runs, one run at a call site of each kind is compared with the other, in
engines that are the same but for this call site and for tallies (`Redirected`). A binding, a search
for a rule and an execution each come to the same in such engines and leave such engines
(`bind_redirected`, `ruleFor_redirected`, `execute_redirected`), as long as the host does not look
at what the two differ in (`Oblivious`). Since executions themselves do not, a host may use the call
site while it answers or runs.

In the runtime: `InvokeMemberBinder.bind` on callables and nil.
-/

namespace Dispatch

variable {σ : Type}

/-- A function that is called with as many arguments as the call has, or nil in its place. -/
def CallShape.Fits (call : CallShape) (v : List Value) : Prop :=
  ∃ target args, v = target :: args ∧ args.length = call.count ∧
    (target = .nil ∨ ∃ c, target = .callable c)

/-- Functions and nil are called as members as they are called as values. -/
theorem Operation.judge_invokeMember {s : Scope σ} {m : MemberName} {call : CallShape}
    {target : Operand} (args : List Operand)
    (h : target.isNil = true ∨ target.callable?.isSome = true) :
    (Operation.invokeMember m call).judge s (target :: args) =
      (Operation.invoke call).judge s (target :: args) := by
  cases hnil : target.isNil with
  | true =>
    -- refused before the name is looked at
    simp only [judge, hnil, if_true, onNil]
    rfl
  | false =>
    rw [hnil, or_iff_right (by decide)] at h
    simp only [judge, hnil, Bool.false_eq_true, if_false, resolve, h, if_true]
    rfl

/-- The verdict on a call of nil is settled, and on a call of a function it is what becomes of the
parameters. -/
theorem Operation.judge_invoke_cases {call : CallShape} {target : Operand} (args : List Operand)
    (h : target.isNil = true ∨ target.callable?.isSome = true) (s : Scope σ) :
    (∃ verdict, (Operation.invoke call).judge s (target :: args) = pure verdict) ∨
      ∃ formal invoke, ∃ conclude : Resolution → Verdict,
        (Operation.invoke call).judge s (target :: args) = (do
          pure (conclude (← s.resolver.bindParameters formal call args invoke))) := by
  cases hnil : target.isNil with
  | true =>
    simp only [judge, hnil, if_true]
    exact .inl ⟨_, rfl⟩
  | false =>
    rw [hnil, or_iff_right (by decide)] at h
    obtain ⟨c, hc⟩ := Option.isSome_iff_exists.mp h
    simp only [judge, hnil, Bool.false_eq_true, if_false, resolve, judgeCall, hc]
    exact .inr ⟨c.formal, (.invoke (target.read 0) · c.returns), _, rfl⟩

/-- The operands of such a call, as binding sees them. -/
theorem CallShape.Fits.operands {call : CallShape} {v : List Value} (h : call.Fits v) :
    ∃ target args, v.map Operand.known = .known target :: args ∧ v.head? = some target ∧
      (v.map Operand.known).length = 1 + call.count ∧
      ((Operand.known target).isNil = true ∨ (Operand.known target).callable?.isSome = true) := by
  obtain ⟨target, args, rfl, hargs, htarget⟩ := h
  refine ⟨target, args.map .known, rfl, rfl, ?_, ?_⟩
  · rw [List.length_map, List.length_cons, hargs]
    omega
  · rcases htarget with rfl | ⟨c, rfl⟩
    · exact .inl rfl
    · exact .inr rfl

namespace Engine

/-- A call site at which calls of a member are compared with calls of the value. -/
structure Detour where
  index : Nat
  dispatcher : Nat
  member : MemberName
  call : CallShape
  /-- The binder that calls the member. -/
  around : Nat
  /-- The binder that calls the value. -/
  straight : Nat

/-- The two engines are the same but for tallies, and for the call site of the detour: in the first
it calls the member, and in the second the value. -/
structure Redirected (r : Detour) (e f : Engine σ) : Prop where
  fresh : e.fresh = f.fresh
  host : e.host = f.host
  dispatchers : e.dispatchers.map Dispatcher.bare = f.dispatchers.map .bare
  site : ∃ s : Site,
    e.sites[r.index]? = some { s with binder := ⟨r.dispatcher, r.around⟩, kind := .invokeMember } ∧
    f.sites[r.index]? = some { s with binder := ⟨r.dispatcher, r.straight⟩, kind := .invoke }
  others : ∀ i, i ≠ r.index → e.sites[i]? = f.sites[i]?
  member : e.Offers ⟨r.dispatcher, r.around⟩ (.invokeMember r.member r.call)
  value : f.Offers ⟨r.dispatcher, r.straight⟩ (.invoke r.call)

variable {r : Detour} {e f : Engine σ} {host : Host σ} {v : List Value}

namespace Redirected

/-- Whatever is counted, the engines are the same but for that. -/
theorem count (h : Redirected r e f) (i k k' : Nat) (g g' : Tally → Tally) :
    Redirected r { e with dispatchers := e.dispatchers.modify i (·.modifyTally k g) }
      { f with dispatchers := f.dispatchers.modify i (·.modifyTally k' g') } :=
  { h with
    dispatchers := by rw [map_bare_modifyTally, map_bare_modifyTally, h.dispatchers]
    member := (Lasts.of_dispatcher fun d _ => .modifyTally d k g).offers h.member
    value := (Lasts.of_dispatcher fun d _ => .modifyTally d k' g').offers h.value }

/-- The same change to the call site, if it is one to its rules or counts. -/
theorem modifySite (h : Redirected r e f) {g : Site → Site}
    (hg : ∀ s b kind, g { s with binder := b, kind } = { g s with binder := b, kind }) :
    Redirected r { e with sites := e.sites.modify r.index g }
      { f with sites := f.sites.modify r.index g } := by
  obtain ⟨s, hs, hs'⟩ := h.site
  refine { h with site := ⟨g s, ?_, ?_⟩, others := fun i hi => ?_ }
  · rw [Array.getElem?_modify, if_pos rfl, hs, Option.map_some, hg]
  · rw [Array.getElem?_modify, if_pos rfl, hs', Option.map_some, hg]
  · rw [Array.getElem?_modify, Array.getElem?_modify, if_neg hi.symm, if_neg hi.symm]
    exact h.others i hi

/-- The same rule is kept, or not. -/
theorem keep (h : Redirected r e f) (rule : Rule) (v : List Value) :
    Redirected r { e with sites := e.sites.modify r.index (·.keep rule v) }
      { f with sites := f.sites.modify r.index (·.keep rule v) } := by
  refine h.modifySite fun s b kind => ?_
  unfold Site.keep
  split <;> rfl

/-- The same change to what the host keeps for itself. -/
theorem setHost (h : Redirected r e f) (a : σ) :
    Redirected r { e with host := a } { f with host := a } :=
  { h with host := rfl }

theorem setFresh (h : Redirected r e f) (a : Nat) :
    Redirected r { e with fresh := a } { f with fresh := a } :=
  { h with fresh := rfl }

/-- Both binders are in one dispatcher, which knows the same types in both engines. -/
theorem binders (h : Redirected r e f) : ∃ d d' binder binder',
    e.dispatchers[r.dispatcher]? = some d ∧ d.binders[r.around]? = some binder ∧
    f.dispatchers[r.dispatcher]? = some d' ∧ d'.binders[r.straight]? = some binder' ∧
    binder.operation = .invokeMember r.member r.call ∧ binder'.operation = .invoke r.call ∧
    d'.types = d.types ∧ d'.emptyResult = d.emptyResult := by
  obtain ⟨d, direct, hd, tally, hb⟩ := h.member
  obtain ⟨d', direct', hd', tally', hb'⟩ := h.value
  have hbare : (e.dispatchers.map Dispatcher.bare)[r.dispatcher]? =
      (f.dispatchers.map Dispatcher.bare)[r.dispatcher]? := by rw [h.dispatchers]
  rw [Array.getElem?_map, Array.getElem?_map, hd, hd', Option.map_some, Option.map_some,
    Option.some.injEq] at hbare
  have htypes : d'.types = d.types := congrArg (·.types) hbare.symm
  have hempty : d'.emptyResult = d.emptyResult := congrArg (·.emptyResult) hbare.symm
  exact ⟨d, d', _, _, hd, hb, hd', hb', rfl, rfl, htypes, hempty⟩

end Redirected

/-- A host that does the same, and leaves engines that are the same, whether the call site calls the
member or the value. Of the resolver only that is meant which calls of functions need. -/
structure Oblivious (r : Detour) (host : Host σ) : Prop where
  resolver : ∀ formal args invoke, Act.Agree (Redirected r)
    ((host.resolver r.dispatcher).bindParameters formal r.call args invoke)
    ((host.resolver r.dispatcher).bindParameters formal r.call args invoke)
  routine : ∀ i args, Run.Agree (Redirected r) (host.routine i args) (host.routine i args)

/-- An action that works with what the host keeps for itself, and with nothing else. -/
def Inward {α : Type} (x : Act (Engine σ) α) : Prop :=
  ∃ g : σ → Except Panic α × σ, ∀ e, x.exec e = ((g e.host).1, { e with host := (g e.host).2 })

theorem inward_of_pure {α : Type} {x : Act (Engine σ) α} (h : ∃ a, x = pure a) : Inward x := by
  obtain ⟨a, rfl⟩ := h
  exact ⟨fun s => (.ok a, s), fun _ => rfl⟩

theorem Secluded.inward (h : Secluded host) (i : Nat) (args : List Value) :
    Inward (host.routine i args).run :=
  h i args

theorem Inward.agree {α : Type} {x : Act (Engine σ) α} (h : Inward x) :
    Act.Agree (Redirected r) x x := by
  intro e f hef
  obtain ⟨g, hg⟩ := h
  rw [hg, hg, hef.host]
  exact ⟨rfl, hef.setHost _⟩

namespace Oblivious

/-- A host that keeps to itself is oblivious. -/
theorem of_inward (hr : ∀ formal args invoke,
      Inward ((host.resolver r.dispatcher).bindParameters formal r.call args invoke))
    (hs : Secluded host) : Oblivious r host where
  resolver formal args invoke := (hr formal args invoke).agree
  routine i args := (hs.inward i args).agree

/-- To write down what is asked makes no difference. -/
theorem journaled (hh : Oblivious r host) (j : Journal σ) : Oblivious r (host.journaled j) where
  resolver formal args invoke := by
    refine Act.agree_bind (fun e f h => ?_) fun _ => hh.resolver formal args invoke
    rw [Journal.exec_note, Journal.exec_note, h.host]
    exact ⟨rfl, h.setHost _⟩
  routine := hh.routine

theorem call_agree (hh : Oblivious r host) (body : Body) (args : List Value) :
    Run.Agree (Redirected r) (call host body args) (call host body args) :=
  Engine.call_agree hh.routine (fun _ _ h => ⟨h.fresh, h.fresh ▸ h.setFresh _⟩) body args

/-- The verdict on a call of a value is the same in both engines. -/
theorem judge_agree (hh : Oblivious r host) (types : Registry) (emptyResult : Value)
    {target : Operand} (args : List Operand)
    (htarget : target.isNil = true ∨ target.callable?.isSome = true) :
    Act.Agree (Redirected r)
      ((Operation.invoke r.call).judge ⟨host.resolver r.dispatcher, types, emptyResult⟩
        (target :: args))
      ((Operation.invoke r.call).judge ⟨host.resolver r.dispatcher, types, emptyResult⟩
        (target :: args)) := by
  rcases Operation.judge_invoke_cases args htarget
    (⟨host.resolver r.dispatcher, types, emptyResult⟩ : Scope (Engine σ)) with
    ⟨verdict, hverdict⟩ | ⟨formal, invoke, conclude, hverdict⟩
  · rw [hverdict]
    exact Act.agree_pure verdict
  · rw [hverdict]
    exact Act.agree_bind (hh.resolver formal args invoke) fun answer =>
      Act.agree_pure (conclude answer)

end Oblivious

section Runs

variable (hh : Oblivious r host)
include hh

/-- To bind a call of a function, or of nil, comes to the same through either binder. -/
theorem bind_redirected (hv : r.call.Fits v) (fallback : Option Rule) (h : Redirected r e f) :
    ((bind host ⟨r.dispatcher, r.around⟩ (v.map .known) fallback).exec e).1 =
      ((bind host ⟨r.dispatcher, r.straight⟩ (v.map .known) fallback).exec f).1 ∧
    Redirected r ((bind host ⟨r.dispatcher, r.around⟩ (v.map .known) fallback).exec e).2
      ((bind host ⟨r.dispatcher, r.straight⟩ (v.map .known) fallback).exec f).2 := by
  have hknown := Operand.isKnown_of_mem_map_known v
  obtain ⟨target, args, hoperands, -, hcount, htarget⟩ := hv.operands
  obtain ⟨d, d', binder, binder', hd, hb, hd', hb', hop, hop', htypes, hempty⟩ := h.binders
  rw [exec_bind_of_known hd hb (by rw [hop]; exact hcount) hknown,
    exec_bind_of_known hd' hb' (by rw [hop']; exact hcount) hknown, hop, hop', htypes, hempty,
    hoperands, Operation.judge_invokeMember args htarget]
  -- one verdict in both engines, which differ in who counts it
  obtain ⟨hanswer, hleft⟩ := hh.judge_agree d.types d.emptyResult args htarget e f h
  generalize ((Operation.invoke r.call).judge _ _).exec e = x,
    ((Operation.invoke r.call).judge _ _).exec f = y at hanswer hleft ⊢
  obtain ⟨answer, t⟩ := x
  obtain ⟨answer', u⟩ := y
  obtain rfl : answer = answer' := hanswer
  cases answer with
  | error p => exact ⟨rfl, hleft⟩
  | ok verdict => exact ⟨rfl, hleft.count _ _ _ _ _⟩

/-- The same rule is found, or bound and kept. -/
theorem ruleFor_redirected (hv : r.call.Fits v) :
    Act.Agree (Redirected r) (ruleFor host r.index v) (ruleFor host r.index v) := by
  intro e f h
  obtain ⟨s, hs, hs'⟩ := h.site
  cases hfound : s.cache.find? v with
  | some rule =>
    rw [exec_ruleFor_of_found hs hfound, exec_ruleFor_of_found hs' hfound,
      modify_const hs fun s => { s with hits := s.hits + 1 },
      modify_const hs' fun s => { s with hits := s.hits + 1 }]
    exact ⟨rfl, h.modifySite fun _ _ _ => rfl⟩
  | none =>
    rw [exec_ruleFor_of_not_found hs hfound, exec_ruleFor_of_not_found hs' hfound,
      modify_const hs fun s => { s with misses := s.misses + 1 },
      modify_const hs' fun s => { s with misses := s.misses + 1 }]
    have hmissed : Redirected r
        { e with sites := e.sites.modify r.index fun s => { s with misses := s.misses + 1 } }
        { f with sites := f.sites.modify r.index fun s => { s with misses := s.misses + 1 } } :=
      h.modifySite fun _ _ _ => rfl
    obtain ⟨hanswer, hbound⟩ := bind_redirected hh hv s.fallback hmissed
    generalize hx : (bind host ⟨r.dispatcher, r.around⟩ (v.map .known) s.fallback).exec _ = x,
      (bind host ⟨r.dispatcher, r.straight⟩ (v.map .known) s.fallback).exec _ = y
      at hanswer hbound ⊢
    obtain ⟨answer, t⟩ := x
    obtain ⟨answer', u⟩ := y
    obtain rfl : answer = answer' := hanswer
    match answer with
    | .error p => exact ⟨rfl, hbound⟩
    | .ok (.deferred pending) =>
      have hknown := Operand.isKnown_of_mem_map_known v
      exact absurd ⟨_, t, hx⟩ (not_deferred_of_known hknown s.fallback pending)
    | .ok (.bound rule) => exact ⟨rfl, hbound.keep rule v⟩

/-- An execution comes to the same. -/
theorem execute_redirected (hv : r.call.Fits v) :
    Run.Agree (Redirected r) (execute host r.index v) (execute host r.index v) :=
  Run.agree_bind (Run.agree_lift (ruleFor_redirected hh hv)) fun rule =>
    Fragment.evaluate_agree hh.call_agree v rule.fragment

/-- Steps come to the same. -/
theorem perform_redirected {step : Step} (hstep : ∀ v, step = .execute v → r.call.Fits v) :
    Act.Agree (Redirected r) (perform host r.index step) (perform host r.index step) := by
  cases step with
  | execute v =>
    exact Act.agree_bind (execute_redirected hh (hstep v rfl)) fun outcome =>
      Act.agree_pure (some outcome)
  | reset =>
    intro e f h
    exact ⟨rfl, h.modifySite fun _ _ _ => rfl⟩

end Runs

/-- What is seen of steps at a call site, one after the other: what a step came to, how the call
site looks then, and what the host keeps for itself. -/
def watched (host : Host σ) (index : Nat) (e : Engine σ) :
    List Step → List (Except Panic (Option (Outcome Value)) × Option Look × σ)
  | [] => []
  | step :: steps =>
    let (answer, t) := (perform host index step).exec e
    (answer, t.sites[index]?.map Site.look, t.host) :: watched host index t steps

/-- The rules and the counts of the call site are the same, whatever it calls. -/
theorem Redirected.look_eq (h : Redirected r e f) :
    e.sites[r.index]?.map Site.look = f.sites[r.index]?.map Site.look := by
  obtain ⟨s, hs, hs'⟩ := h.site
  rw [hs, hs']
  rfl

/-- Nobody who watches sees whether the call site calls the member or the value. -/
theorem watched_redirected (hh : Oblivious r host) (h : Redirected r e f) {steps : List Step}
    (hsteps : ∀ v, .execute v ∈ steps → r.call.Fits v) :
    watched host r.index e steps = watched host r.index f steps := by
  induction steps generalizing e f with
  | nil => rfl
  | cons step steps ih =>
    have hstep : ∀ v, step = .execute v → r.call.Fits v := fun v hv =>
      hsteps v (hv ▸ List.mem_cons_self)
    obtain ⟨hanswer, hnext⟩ := perform_redirected hh hstep e f h
    have hrest := ih hnext fun v hv => hsteps v (List.mem_cons_of_mem _ hv)
    simp only [watched]
    rw [hanswer, hnext.look_eq, hnext.host, hrest]

end Engine

end Dispatch
