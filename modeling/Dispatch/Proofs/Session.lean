import Dispatch.Proofs.Linkage
import Dispatch.Proofs.Reentrancy

/-!
# Sessions

What a program does with its dispatchers from outside is a session: it asks for binders, makes call
sites with the binders that it got, binds, executes and resets call sites, and has the shared binders
dropped (`Move`). It knows a binder by when it got it, so that the same moves can be made whichever
binders are handed out (`Supply`): the shared ones, or a new one each time.

While a session goes on the host may do anything as well, from within executions. What can be relied
on all the time is that things last (`Engine.Lasts`): a binder stays what it was made for, and so
does a call site but for its rules and counts.

A preorder of engines `Admits` what sessions do if it admits the few changes that their moves are
made of. Then executions stay within it as soon as the host does (`execute_within_admitted`), and so
do whole sessions (`Session.within_run`).

In the runtime: `Runtime`, its binders and `CallSite`.
-/

namespace Dispatch

variable {σ : Type}

namespace Dispatcher

variable {d : Dispatcher} {op : Operation}

/-- Makes a binder that is not shared, with one of its own for calls of functions if it calls
members. -/
def brandNew (d : Dispatcher) (op : Operation) : Nat × Dispatcher :=
  match op with
  | .invokeMember _ call =>
    let (direct, d) := d.make (.invoke call) none
    d.make op (some direct)
  | op => d.make op none

theorem Retains.brandNew (d : Dispatcher) (op : Operation) : d.Retains (d.brandNew op).2 := by
  cases op with
  | invokeMember m call => exact (Retains.make d (.invoke call) none).trans (.make _ _ _)
  | _ => exact Retains.make d _ none

theorem serves_brandNew (d : Dispatcher) (op : Operation) :
    ∃ direct, (d.brandNew op).2.Serves (d.brandNew op).1 op direct := by
  cases op with
  | invokeMember m call => exact ⟨_, serves_make _ _ _⟩
  | _ => exact ⟨_, serves_make d _ none⟩

theorem shared_brandNew (d : Dispatcher) (op : Operation) :
    (d.brandNew op).2.shared = d.shared := by
  cases op <;> rfl

end Dispatcher

/-- How requests for binders are met. -/
inductive Supply where
  /-- With the one binder that is shared for the key until it is dropped. -/
  | shared
  /-- With a new binder each time, made for the key. -/
  | keyed
  /-- With a new binder each time, made for the operation just as it was asked for. -/
  | asked

namespace Supply

/-- The binder for a request. -/
def get : Supply → Dispatcher → Operation → Nat × Dispatcher
  | shared, d, op => d.request op.canonical
  | keyed, d, op => d.brandNew op.canonical
  | asked, d, op => d.brandNew op

/-- What a clear does: nothing where nothing is shared. -/
def drop : Supply → Dispatcher → Dispatcher
  | shared, d => d.clear
  | keyed, d | asked, d => d

theorem retains_get (supply : Supply) (d : Dispatcher) (op : Operation) :
    d.Retains (supply.get d op).2 := by
  cases supply with
  | shared => exact .request d op.canonical
  | keyed => exact .brandNew d op.canonical
  | asked => exact .brandNew d op

theorem retains_drop (supply : Supply) (d : Dispatcher) : d.Retains (supply.drop d) := by
  cases supply with
  | shared => exact .clear d
  | keyed | asked => exact .refl d

end Supply

namespace Engine

/-- Binder `b` is for the operation `op`. -/
def Offers (e : Engine σ) (b : BinderRef) (op : Operation) : Prop :=
  ∃ d direct, e.dispatchers[b.dispatcher]? = some d ∧ d.Serves b.binder op direct

/-- The later state `t` of an engine still has what `e` had: the dispatchers with their binders, and
the call sites, which may have other rules and counts. -/
structure Lasts (e t : Engine σ) : Prop where
  dispatchers : ∀ (i : Nat) (d : Dispatcher), e.dispatchers[i]? = some d →
    ∃ d', t.dispatchers[i]? = some d' ∧ d.Retains d'
  sites : ∀ (i : Nat) (s : Site), e.sites[i]? = some s →
    ∃ cache hits misses, t.sites[i]? = some { s with cache, hits, misses }

variable {host : Host σ} {e t u : Engine σ} {b : BinderRef} {op : Operation}

namespace Lasts

/-- Whatever else changes, dispatchers and call sites last that are left alone. -/
theorem of_eq (hd : t.dispatchers = e.dispatchers) (hs : t.sites = e.sites) : e.Lasts t where
  dispatchers _ d h := ⟨d, hd ▸ h, .refl d⟩
  sites _ s h := ⟨s.cache, s.hits, s.misses, hs ▸ h⟩

theorem refl (e : Engine σ) : e.Lasts e :=
  of_eq rfl rfl

theorem trans (h : e.Lasts t) (k : t.Lasts u) : e.Lasts u where
  dispatchers i d hd := by
    obtain ⟨d', hd', hr⟩ := h.dispatchers i d hd
    obtain ⟨d'', hd'', hr'⟩ := k.dispatchers i d' hd'
    exact ⟨d'', hd'', hr.trans hr'⟩
  sites i s hs := by
    obtain ⟨_, _, _, hs'⟩ := h.sites i s hs
    obtain ⟨cache, hits, misses, hs''⟩ := k.sites i _ hs'
    exact ⟨cache, hits, misses, hs''⟩

/-- A binder stays what it was made for. -/
theorem offers (h : e.Lasts t) (hs : e.Offers b op) : t.Offers b op := by
  obtain ⟨d, direct, hd, hb⟩ := hs
  obtain ⟨d', hd', hr⟩ := h.dispatchers b.dispatcher d hd
  exact ⟨d', direct, hd', hr.binders _ _ _ hb⟩

theorem of_dispatcher {i : Nat} {f : Dispatcher → Dispatcher}
    (hf : ∀ d, e.dispatchers[i]? = some d → d.Retains (f d)) :
    e.Lasts { e with dispatchers := e.dispatchers.modify i f } where
  dispatchers j d hd := by
    show ∃ d', (e.dispatchers.modify i f)[j]? = some d' ∧ d.Retains d'
    rw [Array.getElem?_modify]
    by_cases hij : i = j
    · subst hij
      rw [if_pos rfl, hd]
      exact ⟨f d, rfl, hf d hd⟩
    · rw [if_neg hij]
      exact ⟨d, hd, .refl d⟩
  sites _ s hs := ⟨s.cache, s.hits, s.misses, hs⟩

theorem of_site {i : Nat} {f : Site → Site}
    (hf : ∀ s, e.sites[i]? = some s → ∃ cache hits misses, f s = { s with cache, hits, misses }) :
    e.Lasts { e with sites := e.sites.modify i f } where
  dispatchers _ d hd := ⟨d, hd, .refl d⟩
  sites j s hs := by
    show ∃ cache hits misses, (e.sites.modify i f)[j]? = some { s with cache, hits, misses }
    rw [Array.getElem?_modify]
    by_cases hij : i = j
    · subst hij
      rw [if_pos rfl, hs]
      obtain ⟨cache, hits, misses, heq⟩ := hf s hs
      exact ⟨cache, hits, misses, congrArg some heq⟩
    · rw [if_neg hij]
      exact ⟨s.cache, s.hits, s.misses, hs⟩

/-- A call site that keeps a rule is the same but for its rules. -/
theorem of_keep (e : Engine σ) (i : Nat) (r : Rule) (operands : List Value) :
    e.Lasts { e with sites := e.sites.modify i (·.keep r operands) } := by
  refine .of_site fun s _ => ?_
  unfold Site.keep
  split
  next => exact ⟨s.cache.record s.maxRules r, s.hits, s.misses, rfl⟩
  next => exact ⟨s.cache, s.hits, s.misses, rfl⟩

theorem of_newSite (e : Engine σ) (s : Site) : e.Lasts { e with sites := e.sites.push s } where
  dispatchers _ d hd := ⟨d, hd, .refl d⟩
  sites j s' hs := by
    obtain ⟨hj, -⟩ := Array.getElem?_eq_some_iff.mp hs
    refine ⟨s'.cache, s'.hits, s'.misses, ?_⟩
    show (e.sites.push s)[j]? = some s'
    rw [Array.getElem?_push, if_neg (by omega)]
    exact hs

end Lasts

/-- A preorder of engines that admits what sessions do themselves. What the host does is not
meant. -/
structure Admits (host : Host σ) (R : Engine σ → Engine σ → Prop) : Prop where
  refl : ∀ e, R e e
  trans : ∀ {e t u}, R e t → R t u → R e u
  fresh : ∀ (e : Engine σ) n, R e { e with fresh := n }
  dispatcher : ∀ (e : Engine σ) i f, (∀ d, e.dispatchers[i]? = some d → d.Retains (f d)) →
    R e { e with dispatchers := e.dispatchers.modify i f }
  newSite : ∀ (e : Engine σ) s, s.cache = .empty → R e { e with sites := e.sites.push s }
  /-- The counts of a call site. -/
  counts : ∀ (e : Engine σ) i s hits misses, e.sites[i]? = some s →
    R e { e with sites := e.sites.modify i fun _ => { s with hits, misses } }
  reset : ∀ (e : Engine σ) i, R e { e with sites := e.sites.modify i Site.reset }
  /-- A call site keeps a rule that was bound for it. -/
  keep : ∀ (e t : Engine σ) i s operands r, e.sites[i]? = some s →
    (bind host s.binder (operands.map .known) s.fallback).exec e = (.ok (.bound r), t) → R e t →
    R t { t with sites := t.sites.modify i (·.keep r operands) }

theorem admits_lasts (host : Host σ) : Admits host Lasts where
  refl := .refl
  trans := .trans
  fresh _ _ := .of_eq rfl rfl
  dispatcher _ _ _ hf := .of_dispatcher hf
  newSite e s _ := .of_newSite e s
  counts e i s hits misses hs := .of_site fun s' hs' => by
    rw [hs] at hs'
    exact Option.some.inj hs' ▸ ⟨s.cache, hits, misses, rfl⟩
  reset e i := .of_site fun s _ => ⟨.empty, s.hits, s.misses, rfl⟩
  keep _ t i _ operands r _ _ _ := .of_keep t i r operands

end Engine

/-- What a host does stays within a preorder, whether it answers or runs. -/
structure Host.Within (host : Host σ) (R : Engine σ → Engine σ → Prop) : Prop where
  resolver : ∀ i, (host.resolver i).Within R
  routine : ∀ i args, Run.Within R (host.routine i args)

namespace Engine

section Admitted

variable {host : Host σ} {R : Engine σ → Engine σ → Prop} (hR : Admits host R)
include hR

theorem onDispatcher_within_admitted {α : Type} (i : Nat) {f : Dispatcher → α × Dispatcher}
    (hf : ∀ d : Dispatcher, d.Retains (f d).2) : Act.Within R (onDispatcher (σ := σ) i f) := by
  intro e
  cases hd : e.dispatchers[i]? with
  | none =>
    rw [exec_onDispatcher_of_none hd]
    exact hR.refl e
  | some d =>
    rw [exec_onDispatcher hd]
    refine hR.dispatcher e i _ fun d' hd' => ?_
    rw [hd] at hd'
    exact Option.some.inj hd' ▸ hf d

theorem newSite_within_admitted (b : BinderRef) (maxRules : Nat) (fallback : Option Rule) :
    Act.Within R (newSite (σ := σ) b maxRules fallback) :=
  Act.within_bind (R := R) hR.trans (binder_within hR.refl hR.trans b) fun binder e =>
    hR.newSite e { binder := b, kind := binder.operation.kind, fallback, maxRules } rfl

variable (hh : host.Within R)
include hh

theorem bind_within_admitted (b : BinderRef) (operands : List Operand) (fallback : Option Rule) :
    Act.Within R (bind host b operands fallback) :=
  bind_within hR.refl hR.trans (hh.resolver b.dispatcher)
    (fun e k f => hR.dispatcher e b.dispatcher _ fun d _ => .modifyTally d k f) operands fallback

/-- A rule is found or bound, and then kept. -/
theorem ruleFor_within_admitted (i : Nat) (operands : List Value) :
    Act.Within R (ruleFor host i operands) := by
  intro e
  cases hs : e.sites[i]? with
  | none =>
    rw [exec_ruleFor_of_none hs]
    exact hR.refl e
  | some s =>
    cases hfound : s.cache.find? operands with
    | some r =>
      rw [exec_ruleFor_of_found hs hfound]
      exact hR.counts e i s (s.hits + 1) s.misses hs
    | none =>
      rw [exec_ruleFor_of_not_found hs hfound]
      have hmiss := hR.counts e i s s.hits (s.misses + 1) hs
      have hs' : ({ e with sites := e.sites.modify i fun _ =>
          { s with misses := s.misses + 1 } } : Engine σ).sites[i]? =
            some { s with misses := s.misses + 1 } := by
        rw [Array.getElem?_modify, if_pos rfl, hs]
        rfl
      generalize ({ e with sites := e.sites.modify i fun _ =>
        { s with misses := s.misses + 1 } } : Engine σ) = missed at hmiss hs'
      have hbound := bind_within_admitted hR hh s.binder (operands.map .known) s.fallback missed
      split
      next r t hbind =>
        rw [hbind] at hbound
        exact hR.trans hmiss (hR.trans hbound (hR.keep missed t i _ operands r hs' hbind hbound))
      next hbind =>
        rw [hbind] at hbound
        exact hR.trans hmiss hbound
      next hbind =>
        rw [hbind] at hbound
        exact hR.trans hmiss hbound

/-- What the host does and what sessions do themselves is all that executions do. -/
theorem execute_within_admitted (i : Nat) (operands : List Value) :
    Run.Within R (execute host i operands) :=
  execute_within_of_ruleFor hR.refl hR.trans
    (call_within hh.routine (pack_within hR.refl hR.fresh))
    (ruleFor_within_admitted hR hh i operands)

end Admitted

end Engine

/-- What a program does with its dispatchers and call sites. A binder is named by the number of
binders that the program got before it. -/
inductive Move where
  | request (dispatcher : Nat) (op : Operation)
  | site (handle maxRules : Nat) (fallback : Option Rule)
  | bind (handle : Nat) (operands : List Operand) (fallback : Option Rule)
  | execute (site : Nat) (operands : List Value)
  | reset (site : Nat)
  | clear (dispatcher : Nat)

/-- What comes of a move. -/
inductive Reply where
  | binder (b : BinderRef)
  | site (index : Nat)
  | binding (b : Binding)
  | outcome (o : Outcome Value)
  | done

/-- All that a program sees of a reply: not which binder it got. -/
def Reply.seen : Reply → Reply
  | binder _ => done
  | reply => reply

/-- All that is seen of the rules of a call site. -/
structure Look where
  classification : Classification
  ruleCount : Nat
  hits : Nat
  misses : Nat
deriving DecidableEq, Repr

def Site.look (s : Site) : Look :=
  ⟨s.classification, s.ruleCount, s.hits, s.misses⟩

/-- Makes a move, where `handles` are the binders that the program got. -/
def Move.make (host : Host σ) (supply : Supply) (handles : List BinderRef) :
    Move → Act (Engine σ) Reply
  | request i op => do return .binder ⟨i, ← Engine.onDispatcher i (supply.get · op)⟩
  | site handle maxRules fallback => do
    match handles[handle]? with
    | some b => return .site (← Engine.newSite b maxRules fallback)
    | none => throw (.unknownBinder handle)
  | bind handle operands fallback => do
    match handles[handle]? with
    | some b => return .binding (← Engine.bind host b operands fallback)
    | none => throw (.unknownBinder handle)
  | execute i operands => do return .outcome (← (Engine.execute host i operands).run)
  | reset i => do
    Engine.modifySite i Site.reset
    return .done
  | clear i => do
    Engine.modifyDispatcher i supply.drop
    return .done

/-- A session so far: the engine, and the binders that the program got. -/
structure Session (σ : Type) where
  engine : Engine σ
  handles : List BinderRef := []

namespace Session

variable {host : Host σ} {supply : Supply} {s : Session σ}

/-- The binder that a move got, if it got one. -/
def got : Except Panic Reply → List BinderRef
  | .ok (.binder b) => [b]
  | _ => []

/-- The session after one more move. After a panic it goes on from what was reached. -/
def step (host : Host σ) (supply : Supply) (s : Session σ) (move : Move) : Session σ :=
  let (answer, e) := (move.make host supply s.handles).exec s.engine
  ⟨e, s.handles ++ got answer⟩

/-- The session after some more moves. -/
def run (host : Host σ) (supply : Supply) (s : Session σ) (moves : List Move) : Session σ :=
  moves.foldl (step host supply) s

/-- All that is seen of a session: what comes of each move, and all call sites as they look then. -/
def seen (host : Host σ) (supply : Supply) (s : Session σ) :
    List Move → List (Except Panic Reply × Array Look)
  | [] => []
  | move :: moves =>
    (((move.make host supply s.handles).exec s.engine).1.map Reply.seen,
        (s.step host supply move).engine.sites.map Site.look) ::
      (s.step host supply move).seen host supply moves

end Session

section Admitted

variable {host : Host σ} {R : Engine σ → Engine σ → Prop} (hR : Engine.Admits host R)
  (hh : host.Within R)
include hR hh

theorem Move.within_make (supply : Supply) (handles : List BinderRef) (move : Move) :
    Act.Within R (move.make host supply handles) := by
  have hconclude : ∀ {α β : Type} {x : Act (Engine σ) α} {f : α → β}, Act.Within R x →
      Act.Within R (x >>= fun a => pure (f a)) := fun hx =>
    Act.within_bind (R := R) hR.trans hx fun _ => Act.within_pure hR.refl _
  cases move with
  | request i op =>
    exact hconclude (Engine.onDispatcher_within_admitted hR i fun d => supply.retains_get d op)
  | site handle maxRules fallback =>
    simp only [make]
    split
    next => exact hconclude (Engine.newSite_within_admitted hR _ maxRules fallback)
    next => exact Act.within_throw hR.refl _
  | bind handle operands fallback =>
    simp only [make]
    split
    next => exact hconclude (Engine.bind_within_admitted hR hh _ operands fallback)
    next => exact Act.within_throw hR.refl _
  | execute i operands =>
    exact hconclude fun e => Engine.execute_within_admitted hR hh i operands e
  | reset i => exact fun e => hR.reset e i
  | clear i => exact fun e => hR.dispatcher e i supply.drop fun d _ => supply.retains_drop d

theorem Session.within_step (supply : Supply) (s : Session σ) (move : Move) :
    R s.engine (s.step host supply move).engine :=
  Move.within_make hR hh supply s.handles move s.engine

/-- Sessions stay within what admits them, as long as the host does. -/
theorem Session.within_run (supply : Supply) (s : Session σ) (moves : List Move) :
    R s.engine (s.run host supply moves).engine := by
  induction moves generalizing s with
  | nil => exact hR.refl s.engine
  | cons move moves ih =>
    exact hR.trans (within_step hR hh supply s move) (ih (s.step host supply move))

end Admitted

end Dispatch
