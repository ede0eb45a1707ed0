import Dispatch.Engine.Lemmas
import Dispatch.Proofs.Agreement

/-!
# What happens to a call site

From outside a call site is executed and reset, one step after the other (`Step`, `after`). But
routines run in the middle of an execution, and they may execute and reset the same call site again.
So what happens to it is a *course* of smaller things: that a rule is found for some operands, kept
or bound anew; that the rules are forgotten; and whatever leaves the call site alone, together with
what its binder binds with (`Aside`).

Routines are `Courteous` if all that they do to a call site is such a course. With courteous
routines an execution is a course (`execute_within`), and so are any steps (`course_after`).

In the runtime: `CallSite.execute` and `reset`.
-/

namespace Dispatch

variable {σ : Type}

/-- What binding reads of an engine besides the operands. -/
structure Backdrop where
  operation : Operation
  types : Registry
  emptyResult : Value

/-- What a resolver is asked in. -/
def Backdrop.scope (x : Backdrop) (r : Resolver σ) : Scope σ :=
  ⟨r, x.types, x.emptyResult⟩

namespace Engine

/-- What the binder `b` binds with, if there is such a binder. -/
def backdrop (e : Engine σ) (b : BinderRef) : Option Backdrop :=
  e.dispatchers[b.dispatcher]?.bind fun d =>
    d.binders[b.binder]?.map fun binder => ⟨binder.operation, d.types, d.emptyResult⟩

theorem backdrop_eq_some {e : Engine σ} {b : BinderRef} {x : Backdrop} :
    e.backdrop b = some x ↔ ∃ d binder, e.dispatchers[b.dispatcher]? = some d ∧
      d.binders[b.binder]? = some binder ∧
      x = ⟨binder.operation, d.types, d.emptyResult⟩ := by
  unfold backdrop
  rw [Option.bind_eq_some_iff]
  constructor
  · rintro ⟨d, hd, hx⟩
    obtain ⟨binder, hb, rfl⟩ := Option.map_eq_some_iff.mp hx
    exact ⟨d, binder, hd, hb, rfl⟩
  · rintro ⟨d, binder, hd, hb, rfl⟩
    exact ⟨d, hd, by rw [hb]; rfl⟩

theorem backdrop_modifyTally (e : Engine σ) (b : BinderRef) (dispatcher binder : Nat)
    (f : Tally → Tally) :
    ({ e with dispatchers := e.dispatchers.modify dispatcher (·.modifyTally binder f) } :
      Engine σ).backdrop b = e.backdrop b := by
  simp only [backdrop, Array.getElem?_modify]
  by_cases hd : dispatcher = b.dispatcher
  · rw [if_pos hd]
    cases e.dispatchers[b.dispatcher]? with
    | none => rfl
    | some d =>
      simp only [Option.map_some, Option.bind_some, Dispatcher.modifyTally, Array.getElem?_modify]
      by_cases hb : binder = b.binder
      · rw [if_pos hb]
        cases d.binders[b.binder]? <;> rfl
      · rw [if_neg hb]
  · rw [if_neg hd]

/-- Call site `index` is `s`, which keeps no rule and has none to fall back on, and its binder binds
with `x`. -/
structure Unused (index : Nat) (s : Site) (x : Backdrop) (e : Engine σ) : Prop where
  site : e.sites[index]? = some s
  cache : s.cache = .empty
  fallback : s.fallback = none
  backdrop : e.backdrop s.binder = some x

/-- Packing changes nothing but which identity is given out next. -/
theorem pack_within {R : Engine σ → Engine σ → Prop} (hrefl : ∀ e, R e e)
    (hfresh : ∀ (e : Engine σ) n, R e { e with fresh := n }) (values : List Value) :
    Act.Within R (pack values) := by
  intro e
  rcases exec_pack (σ := σ) values with ⟨v, hv⟩ | ⟨vs, hvs⟩
  · rw [hv]
    exact hrefl e
  · rw [hvs]
    exact hfresh e (e.fresh + 1)

/-- A change that leaves a call site alone, and what its binder binds with. -/
structure Aside (index : Nat) (b : BinderRef) (e t : Engine σ) : Prop where
  site : t.sites[index]? = e.sites[index]?
  backdrop : t.backdrop b = e.backdrop b

namespace Aside

variable {index : Nat} {b : BinderRef}

theorem refl (e : Engine σ) : Aside index b e e :=
  ⟨rfl, rfl⟩

theorem trans {e t u : Engine σ} (h : Aside index b e t) (k : Aside index b t u) :
    Aside index b e u :=
  ⟨k.site.trans h.site, k.backdrop.trans h.backdrop⟩

/-- Giving out identities is no change that a call site sees. -/
theorem of_pack (values : List Value) : Act.Within (Aside (σ := σ) index b) (pack values) :=
  pack_within refl (fun _ _ => ⟨rfl, rfl⟩) values

end Aside

/-- What can become of an engine while call site `index`, which binds through `b`, is used on
operands in `V`: rules are found for operands, rules are forgotten, and other things happen that
leave the call site alone. -/
inductive Course (host : Host σ) (index : Nat) (b : BinderRef) (V : List Value → Prop) :
    Engine σ → Engine σ → Prop
  | refl (e : Engine σ) : Course host index b V e e
  | aside {e t u : Engine σ} :
    Course host index b V e t → Aside index b t u → Course host index b V e u
  | find {e t : Engine σ} {operands : List Value} : Course host index b V e t → V operands →
    Course host index b V e ((ruleFor host index operands).exec t).2
  | reset {e t : Engine σ} : Course host index b V e t →
    Course host index b V e ((modifySite index Site.reset).exec t).2

/-- Routines that do nothing to a call site but use it. -/
def Courteous (host : Host σ) (index : Nat) (b : BinderRef) (V : List Value → Prop) : Prop :=
  ∀ i args, Run.Within (Course host index b V) (host.routine i args)

variable {host : Host σ} {index : Nat} {b : BinderRef} {V : List Value → Prop}

theorem Course.trans {e t u : Engine σ} (h : Course host index b V e t)
    (k : Course host index b V t u) : Course host index b V e u := by
  induction k with
  | refl => exact h
  | aside _ ha ih => exact ih.aside ha
  | find _ hv ih => exact ih.find hv
  | reset _ ih => exact ih.reset

/-- Bodies agree as soon as routines do, where identities are given out alike. -/
theorem call_agree {host' : Host σ} {R : Engine σ → Engine σ → Prop}
    (hroutine : ∀ i args, Run.Agree R (host.routine i args) (host'.routine i args))
    (hfresh : ∀ e f, R e f →
      e.fresh = f.fresh ∧ R { e with fresh := e.fresh + 1 } { f with fresh := f.fresh + 1 })
    (body : Body) (args : List Value) :
    Run.Agree R (call host body args) (call host' body args) := by
  cases body with
  | native i => exact hroutine i args
  | pack =>
    refine Run.agree_lift (x := pack args) (y := pack args) fun e f h => ?_
    rcases exec_pack (σ := σ) args with ⟨v, hv⟩ | ⟨vs, hvs⟩
    · rw [hv, hv]
      exact ⟨rfl, h⟩
    · obtain ⟨hsame, hnext⟩ := hfresh e f h
      rw [hvs, hvs, hsame]
      exact ⟨rfl, hsame ▸ hnext⟩

/-- What bodies do is within what routines do and the giving out of identities. -/
theorem call_within {R : Engine σ → Engine σ → Prop}
    (hroutine : ∀ i args, Run.Within R (host.routine i args))
    (hpack : ∀ values : List Value, Act.Within R (pack values)) (body : Body) (args : List Value) :
    Run.Within R (call host body args) := by
  cases body with
  | native i => exact hroutine i args
  | pack =>
    intro e
    have hlift : (Run.exec (call host .pack args) e).2 = ((pack args).exec e).2 :=
      congrArg Prod.snd (Run.exec_lift (pack args) e)
    rw [hlift]
    exact hpack args e

/-- What executions do is within what the search for a rule does and what bodies do. -/
theorem execute_within_of_ruleFor {R : Engine σ → Engine σ → Prop} (hrefl : ∀ e, R e e)
    (htrans : ∀ {e t u}, R e t → R t u → R e u)
    (hcall : ∀ body args, Run.Within R (call host body args)) {operands : List Value}
    (hfind : Act.Within R (ruleFor host index operands)) :
    Run.Within R (execute host index operands) := by
  intro e
  have hfound := hfind e
  rw [exec_execute]
  -- a rule is found and run, or binding panicked
  split
  next r t h =>
    rw [h] at hfound
    exact htrans hfound (Fragment.evaluate_within hrefl htrans hcall operands r.fragment t)
  next p t h =>
    rw [h] at hfound
    exact hfound

theorem Courteous.call_within (hr : Courteous host index b V) (body : Body) (args : List Value) :
    Run.Within (Course host index b V) (call host body args) :=
  Engine.call_within hr (fun values e => (Course.refl e).aside (Aside.of_pack values e)) body args

/-- With courteous routines an execution is a course. -/
theorem execute_within (hr : Courteous host index b V) {operands : List Value}
    (hv : V operands) : Run.Within (Course host index b V) (execute host index operands) :=
  execute_within_of_ruleFor Course.refl Course.trans hr.call_within fun e =>
    (Course.refl e).find hv

/-- What is done to a call site from outside. -/
inductive Step where
  | execute (operands : List Value)
  | reset

/-- Does a step at a call site; an execution answers with its outcome. -/
def perform (host : Host σ) (index : Nat) : Step → Act (Engine σ) (Option (Outcome Value))
  | .execute operands => do return some (← (execute host index operands).run)
  | .reset => do
    modifySite index Site.reset
    return none

/-- The engine after some steps at a call site; one that panics ends where it panicked. -/
def after (host : Host σ) (index : Nat) (e : Engine σ) (steps : List Step) : Engine σ :=
  steps.foldl (fun e step => ((perform host index step).exec e).2) e

theorem exec_perform_execute (host : Host σ) (index : Nat) (operands : List Value)
    (e : Engine σ) :
    (perform host index (.execute operands)).exec e =
      (((execute host index operands).exec e).1.map some,
        ((execute host index operands).exec e).2) :=
  Act.exec_bind_pure (execute host index operands).run some e

theorem exec_perform_reset (host : Host σ) (index : Nat) (e : Engine σ) :
    (perform host index .reset).exec e =
      (.ok none, ((modifySite index Site.reset).exec e).2) := rfl

/-- With courteous routines steps are a course. -/
theorem course_after (hr : Courteous host index b V) {steps : List Step}
    (hsteps : ∀ v, .execute v ∈ steps → V v) (e : Engine σ) :
    Course host index b V e (after host index e steps) := by
  induction steps generalizing e with
  | nil => exact .refl e
  | cons step steps ih =>
    -- the first step, and then the others from where it ends
    have hrest := ih (fun v hv => hsteps v (List.mem_cons_of_mem _ hv))
      ((perform host index step).exec e).2
    refine Course.trans ?_ hrest
    cases step with
    | execute v =>
      rw [exec_perform_execute]
      exact execute_within hr (hsteps v (List.mem_cons_self ..)) e
    | reset =>
      rw [exec_perform_reset]
      exact (Course.refl e).reset

end Engine

end Dispatch
