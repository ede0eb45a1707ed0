import Dispatch.Proofs.Replay

/-!
# Call sites that keep nothing

Tallies, the rules and the counts of a call site, and its limit are bookkeeping: they decide which
work is saved and not what comes out of it. `Engine.bare` is an engine without the bookkeeping of
one call site. Routines that are `Discreet` go by the rest of the engine only.

Then a call site whose rules replay soundly cannot be told from one with any other limit. Two runs
from engines that differ in the limit stay alike, because a rule that is found and one that is bound
anew are the same code (`execute_agree`), and so all outcomes are the same (`outcomes_limited`).
With the limit zero nothing is ever kept (`keptRules_after`).

In the runtime: `CallSite.execute` and its `max_rules`.
-/

namespace Dispatch

variable {σ : Type}

/-- The dispatcher without the tallies of its binders. -/
def Dispatcher.bare (d : Dispatcher) : Dispatcher :=
  { d with binders := d.binders.map fun b => { b with tally := {} } }

/-- The call site without its rules, its counts and its limit. -/
def Site.bare (s : Site) : Site :=
  { s with maxRules := 0, cache := .empty, hits := 0, misses := 0 }

namespace Engine

/-- The engine without tallies and without what call site `index` remembers. -/
def bare (index : Nat) (e : Engine σ) : Engine σ :=
  { e with
    dispatchers := e.dispatchers.map .bare
    sites := e.sites.modify index .bare }

/-- The engine with another limit for call site `index`. -/
def limited (index limit : Nat) (e : Engine σ) : Engine σ :=
  { e with sites := e.sites.modify index fun s => { s with maxRules := limit } }

/-- The rules that call site `index` keeps. -/
def keptRules (index : Nat) (e : Engine σ) : List Rule :=
  (e.sites[index]?).elim [] (·.cache.rules)

/-- A change that a function does not see is not seen in an array either. -/
theorem map_modify_of_unseen {α β : Type} {g : α → β} {f : α → α} (hf : ∀ a, g (f a) = g a)
    (xs : Array α) (i : Nat) : (xs.modify i f).map g = xs.map g := by
  refine Array.ext_getElem? fun j => ?_
  rw [Array.getElem?_map, Array.getElem?_map, Array.getElem?_modify]
  split
  next =>
    cases xs[j]? with
    | none => rfl
    | some a => exact congrArg some (hf a)
  next => rfl

/-- What binders count is bookkeeping. -/
theorem map_bare_modifyTally (ds : Array Dispatcher) (dispatcher binder : Nat)
    (f : Tally → Tally) :
    (ds.modify dispatcher (·.modifyTally binder f)).map Dispatcher.bare = ds.map .bare := by
  refine map_modify_of_unseen (fun d => ?_) ds dispatcher
  simp only [Dispatcher.bare, Dispatcher.modifyTally, Dispatcher.mk.injEq, true_and, and_true]
  refine map_modify_of_unseen (f := fun b : Binder => { b with tally := f b.tally }) ?_ _ _
  exact fun _ => rfl

theorem bare_modifyTally (index : Nat) (e : Engine σ) (dispatcher binder : Nat)
    (f : Tally → Tally) :
    ({ e with dispatchers := e.dispatchers.modify dispatcher (·.modifyTally binder f) } :
      Engine σ).bare index = e.bare index := by
  simp only [bare, Engine.mk.injEq, and_true]
  exact map_bare_modifyTally e.dispatchers dispatcher binder f

theorem bare_modifySite {index : Nat} {e : Engine σ} {f : Site → Site}
    (hf : ∀ s, e.sites[index]? = some s → (f s).bare = s.bare) :
    ({ e with sites := e.sites.modify index f } : Engine σ).bare index = e.bare index := by
  simp only [bare, Engine.mk.injEq, true_and, and_true]
  refine Array.ext_getElem? fun i => ?_
  simp only [Array.getElem?_modify]
  by_cases hi : index = i
  · subst hi
    rw [if_pos rfl, if_pos rfl, if_pos rfl]
    cases hs : e.sites[index]? with
    | none => rfl
    | some s => exact congrArg some (hf s hs)
  · rw [if_neg hi, if_neg hi, if_neg hi]

theorem bare_limited (index limit : Nat) (e : Engine σ) :
    (e.limited index limit).bare index = e.bare index :=
  bare_modifySite fun _ _ => rfl

theorem bare_reset (index : Nat) (e : Engine σ) :
    ((modifySite index Site.reset).exec e).2.bare index = e.bare index :=
  bare_modifySite fun _ _ => rfl

theorem Site.bare_keep (r : Rule) (operands : List Value) (s : Site) :
    (s.keep r operands).bare = s.bare := by
  unfold Site.keep
  split <;> rfl

variable {host : Host σ} {index : Nat} {e f t : Engine σ} {s : Site} {x : Backdrop}
  {V : List Value → Prop} {verdict : List Value → Verdict} {b : BinderRef}

/-- Finding a rule is bookkeeping. -/
theorem Kept.bare_ruleFor (h : Kept index s x V (fun v => (verdict v).rule s.fallback) e)
    (hj : Settles host s.binder x V verdict) {v : List Value} (hv : V v)
    (hn : v.length = x.operation.operandCount) :
    ((ruleFor host index v).exec e).2.bare index = e.bare index := by
  obtain ⟨hx, c, hits, misses, hs, -, -⟩ := h
  cases hfound : c.find? v with
  | some r =>
    rw [exec_ruleFor_of_found hs hfound]
    refine bare_modifySite fun s' hs' => ?_
    rw [hs] at hs'
    exact Option.some.inj hs' ▸ rfl
  | none =>
    obtain ⟨i, g, hmiss⟩ := exec_ruleFor_of_miss hs hx hj hv hn hfound
    -- the miss is counted, then the binder counts the rule, and then the rule is kept
    let missed : Engine σ := { e with sites := e.sites.modify index fun _ =>
      { s with cache := c, hits := hits, misses := misses + 1 } }
    let counted : Engine σ := { missed with
      dispatchers := missed.dispatchers.modify s.binder.dispatcher (·.modifyTally i g) }
    have hmissed : missed.bare index = e.bare index := by
      refine bare_modifySite fun s' hs' => ?_
      rw [hs] at hs'
      exact Option.some.inj hs' ▸ rfl
    have hcounted : counted.bare index = missed.bare index :=
      bare_modifyTally index missed s.binder.dispatcher i g
    have hkeep : ((modifySite index (·.keep ((verdict v).rule s.fallback) v)).exec counted).2.bare
        index = counted.bare index :=
      bare_modifySite fun s' _ => Site.bare_keep _ v s'
    rw [hmiss]
    exact hkeep.trans (hcounted.trans hmissed)

/-- Engines that courses from `e₀` and from `f₀` lead to, and that differ in bookkeeping only. -/
structure Alike (host : Host σ) (index : Nat) (b : BinderRef) (V : List Value → Prop)
    (e₀ f₀ e f : Engine σ) : Prop where
  left : Course host index b V e₀ e
  right : Course host index b V f₀ f
  bare : e.bare index = f.bare index

/-- Routines that do the same, and end alike, whatever the bookkeeping of the call site is. -/
def Discreet (host : Host σ) (index : Nat) (b : BinderRef) (V : List Value → Prop)
    (e₀ f₀ : Engine σ) : Prop :=
  ∀ i args, Run.Agree (Alike host index b V e₀ f₀) (host.routine i args) (host.routine i args)

/-- With discreet routines bodies do the same whatever the bookkeeping is. -/
theorem Discreet.call_agree {e₀ f₀ : Engine σ} (hd : Discreet host index b V e₀ f₀) (body : Body)
    (args : List Value) :
    Run.Agree (Alike host index b V e₀ f₀) (call host body args) (call host body args) := by
  refine Engine.call_agree hd (fun e f h => ⟨congrArg (·.fresh) h.bare, ?_⟩) body args
  -- to give out an identity is no bookkeeping, and leaves the call site alone
  have hbare : ∀ g : Engine σ, ({ g with fresh := g.fresh + 1 } : Engine σ).bare index =
      { g.bare index with fresh := (g.bare index).fresh + 1 } := fun _ => rfl
  exact ⟨h.left.aside ⟨rfl, rfl⟩, h.right.aside ⟨rfl, rfl⟩, by rw [hbare, hbare, h.bare]⟩

section Uncached

variable {e₀ f₀ : Engine σ} {s' : Site}

/-- From engines that differ in bookkeeping only an execution comes out the same. -/
theorem execute_agree (he : Unused index s x e₀) (hf : Unused index s' x f₀)
    (hb : s'.binder = s.binder) (hj : Settles host s.binder x V verdict)
    (hsound : Sound x.operation.operandCount V fun v => (verdict v).rule none)
    (hd : Discreet host index s.binder V e₀ f₀) {v : List Value} (hv : V v)
    (hn : v.length = x.operation.operandCount) :
    Run.Agree (Alike host index s.binder V e₀ f₀) (execute host index v)
      (execute host index v) := by
  intro e f h
  have hj' : Settles host s'.binder x V verdict := hb ▸ hj
  have hkept : Kept index s x V (fun v => (verdict v).rule s.fallback) e :=
    (Kept.of_unused he).course hj h.left
  have hkept' : Kept index s' x V (fun v => (verdict v).rule s'.fallback) f :=
    (Kept.of_unused hf).course hj' (hb ▸ h.right)
  obtain ⟨r, hanswer, hfragment⟩ :=
    hkept.ruleFor_fragment hj (.inr (by rw [he.fallback]; exact hsound)) hv hn
  obtain ⟨r', hanswer', hfragment'⟩ :=
    hkept'.ruleFor_fragment hj' (.inr (by rw [hf.fallback]; exact hsound)) hv hn
  rw [he.fallback] at hfragment
  rw [hf.fallback] at hfragment'
  have hfound : Alike host index s.binder V e₀ f₀ ((ruleFor host index v).exec e).2
      ((ruleFor host index v).exec f).2 :=
    ⟨h.left.find hv, h.right.find hv,
      (hkept.bare_ruleFor hj hv hn).trans (h.bare.trans (hkept'.bare_ruleFor hj' hv hn).symm)⟩
  -- whichever rule is found, the code that runs is the one of the verdict
  have hrun : ∀ {g : Engine σ} {q : Rule}, ((ruleFor host index v).exec g).1 = .ok q →
      q.fragment = ((verdict v).rule none).fragment →
      (execute host index v).exec g =
        (((verdict v).rule none).fragment.evaluate (call host) v).exec
          ((ruleFor host index v).exec g).2 := by
    intro g q hq hsame
    rw [exec_execute, show (ruleFor host index v).exec g =
      (.ok q, ((ruleFor host index v).exec g).2) from Prod.ext hq rfl, ← hsame]
    rfl
  show ((execute host index v).exec e).1 = ((execute host index v).exec f).1 ∧
    Alike host index s.binder V e₀ f₀ ((execute host index v).exec e).2
      ((execute host index v).exec f).2
  rw [hrun hanswer hfragment, hrun hanswer' hfragment']
  exact Fragment.evaluate_agree hd.call_agree v _ _ _ hfound

/-- What steps at a call site come to, one after the other. -/
def outcomes (host : Host σ) (index : Nat) (e : Engine σ) :
    List Step → List (Except Panic (Option (Outcome Value)))
  | [] => []
  | step :: steps =>
    ((perform host index step).exec e).1 ::
      outcomes host index ((perform host index step).exec e).2 steps

/-- Steps come to the same if executions do. -/
theorem outcomes_eq_of_agree {n : Nat}
    (hexecute : ∀ v, V v → v.length = n →
      Run.Agree (Alike host index b V e₀ f₀) (execute host index v) (execute host index v))
    {steps : List Step} (hsteps : ∀ v, .execute v ∈ steps → V v ∧ v.length = n)
    (h : Alike host index b V e₀ f₀ e f) :
    outcomes host index e steps = outcomes host index f steps := by
  induction steps generalizing e f with
  | nil => rfl
  | cons step steps ih =>
    have hstep : ((perform host index step).exec e).1 = ((perform host index step).exec f).1 ∧
        Alike host index b V e₀ f₀ ((perform host index step).exec e).2
          ((perform host index step).exec f).2 := by
      cases step with
      | execute v =>
        obtain ⟨hv, hn⟩ := hsteps v (List.mem_cons_self ..)
        obtain ⟨hanswer, hleft⟩ := hexecute v hv hn e f h
        change ((execute host index v).exec e).1 = ((execute host index v).exec f).1 at hanswer
        rw [exec_perform_execute, exec_perform_execute, hanswer]
        exact ⟨rfl, hleft⟩
      | reset =>
        rw [exec_perform_reset, exec_perform_reset]
        exact ⟨rfl, h.left.reset, h.right.reset,
          (bare_reset index e).trans (h.bare.trans (bare_reset index f).symm)⟩
    rw [outcomes, outcomes, hstep.1,
      ih (fun v hv => hsteps v (List.mem_cons_of_mem _ hv)) hstep.2]

theorem Unused.limited (h : Unused index s x e) (limit : Nat) :
    Unused index { s with maxRules := limit } x (e.limited index limit) := by
  refine ⟨?_, h.cache, h.fallback, h.backdrop⟩
  rw [Engine.limited, Array.getElem?_modify, if_pos rfl, h.site]
  rfl

/-- A call site that replays soundly comes to the same with any other limit. -/
theorem outcomes_limited (h : Unused index s x e) (hj : Settles host s.binder x V verdict)
    (hsound : Sound x.operation.operandCount V fun v => (verdict v).rule none) (limit : Nat)
    (hd : Discreet host index s.binder V e (e.limited index limit)) {steps : List Step}
    (hsteps : ∀ v, .execute v ∈ steps → V v ∧ v.length = x.operation.operandCount) :
    outcomes host index e steps = outcomes host index (e.limited index limit) steps := by
  have hexecute : ∀ v, V v → v.length = x.operation.operandCount →
      Run.Agree (Alike host index s.binder V e (e.limited index limit)) (execute host index v)
        (execute host index v) :=
    fun v hv hn => execute_agree h (h.limited limit) rfl hj hsound hd hv hn
  exact outcomes_eq_of_agree hexecute hsteps
    ⟨.refl e, .refl _, (bare_limited index limit e).symm⟩

/-- A call site with the limit zero keeps no rule. -/
theorem keptRules_after (h : Unused index s x e) (hj : Settles host s.binder x V verdict)
    (hr : Courteous host index s.binder V) (hzero : s.maxRules = 0) {steps : List Step}
    (hsteps : ∀ v, .execute v ∈ steps → V v) :
    keptRules index (after host index e steps) = [] := by
  obtain ⟨-, c, hits, misses, hs, hlen, -⟩ :=
    (Kept.of_unused h).course hj (course_after hr hsteps e)
  rw [hzero, Nat.le_zero, List.length_eq_zero_iff] at hlen
  rw [keptRules, hs]
  exact hlen

end Uncached

end Engine

end Dispatch
