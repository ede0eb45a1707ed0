import Dispatch.Proofs.Accounts
import Dispatch.Proofs.Calling

/-!
# Dealings with a dispatcher

What becomes of a dispatcher while it is at work is a matter of dealings: binders are made and
shared, dropped and asked, and the postings of the log are what is answered. A resolver may deal
with the dispatcher that it answers for, and even bind again; the postings of that come before the
one of the answer that it was asked for (`Dealings.bound`).

Binding comes down to three cases (`exec_bind_cases`), so if the resolver does nothing but deal,
binding is a dealing that adds its own answer to the log (`bind_deals`), and so are executions of
call sites (`execute_deals`). By induction on the dealings the dispatcher accounts for all postings
(`Dealings.posted`).

In the runtime: `Binder.bind` and `DispatchCache`, as far as `BinderStats` are touched.

Main statement: `binds_accounted`, about all dealings with a new dispatcher.
-/

namespace Dispatch

variable {σ : Type}

/-- What is done with a dispatcher besides binding: a request for a binder is met, the shared
binders are dropped, and types become known. -/
inductive Dispatcher.Handled (d : Dispatcher) : Dispatcher → Prop
  | get (supply : Supply) (op : Operation) : Handled d (supply.get d op).2
  | clear : Handled d d.clear
  | types (types : Registry) : Handled d { d with types }

theorem Dispatcher.Handled.posted {d d' : Dispatcher} (h : d.Handled d') (hf : d.Furnished) :
    Posted [] d d' := by
  cases h with
  | get supply op => exact .get hf supply op
  | clear => exact .clear hf
  | types types => exact .of_same hf ⟨rfl, rfl, fun _ _ _ hs => hs⟩ rfl rfl

namespace Engine

/-- What can become of an engine while dispatcher `i` is dealt with, with a posting for each answer
to a request to bind. What is done to everything else is not meant. -/
inductive Dealings (i : Nat) : List Posting → Engine σ → Engine σ → Prop
  | refl (e : Engine σ) : Dealings i [] e e
  | aside {log : List Posting} {e t u : Engine σ} :
    Dealings i log e t → u.dispatchers[i]? = t.dispatchers[i]? → Dealings i log e u
  | handle {log : List Posting} {e t u : Engine σ} {d d' : Dispatcher} :
    Dealings i log e t → t.dispatchers[i]? = some d → d.Handled d' →
    u.dispatchers[i]? = some d' → Dealings i log e u
  /-- Binding is put off. -/
  | deferred {log : List Posting} {e t u : Engine σ} {d : Dispatcher} {n : Nat} {binder : Binder}
    {operands : List Operand} :
    Dealings i log e t → t.dispatchers[i]? = some d → d.binders[n]? = some binder →
    Operand.pending operands ≠ [] →
    u.dispatchers[i]? = t.dispatchers[i]?.map (·.modifyTally n (·.countDeferral)) →
    Dealings i (log ++ [⟨⟨n, operands, .deferred (Operand.pending operands)⟩, n⟩]) e u
  /-- A rule is bound. Other dealings come in between. -/
  | bound {log inner : List Posting} {e t u w : Engine σ} {d : Dispatcher} {n : Nat}
    {binder : Binder} {operands : List Operand} {resolver : Resolver (Engine σ)}
    {verdict : Verdict} {fallback : Option Rule} :
    Dealings i log e t → t.dispatchers[i]? = some d → d.binders[n]? = some binder →
    Operand.pending operands = [] →
    (binder.operation.judge ⟨resolver, d.types, d.emptyResult⟩ operands).exec t = (.ok verdict, u) →
    Dealings i inner t u →
    w.dispatchers[i]? = u.dispatchers[i]?.map (·.modifyTally (binder.creditee n operands)
      (·.countRule (verdict.rule fallback))) →
    Dealings i (log ++ inner ++
      [⟨⟨n, operands, .bound (verdict.rule fallback)⟩, binder.creditee n operands⟩]) e w

variable {host : Host σ} {i : Nat} {e t u : Engine σ} {log more : List Posting} {nested : Prop}

namespace Dealings

theorem trans (h : Dealings i log e t) (k : Dealings i more t u) :
    Dealings i (log ++ more) e u := by
  induction k with
  | refl => rwa [List.append_nil]
  | aside _ hu ih => exact (ih h).aside hu
  | handle _ hd hhandled hu ih => exact (ih h).handle hd hhandled hu
  | deferred _ hd hb hp hu ih =>
    rw [← List.append_assoc]
    exact (ih h).deferred hd hb hp hu
  | bound _ hd hb hp hverdict hinner hw ih _ =>
    rw [← List.append_assoc, ← List.append_assoc]
    exact (ih h).bound hd hb hp hverdict hinner hw

/-- Through all dealings a dispatcher accounts for the postings. -/
theorem posted (h : Dealings i log e t) {d : Dispatcher} (hd : e.dispatchers[i]? = some d)
    (hf : d.Furnished) : ∃ d', t.dispatchers[i]? = some d' ∧ d.Posted log d' := by
  induction h generalizing d with
  | refl => exact ⟨d, hd, .refl hf⟩
  | aside _ hu ih => exact hu ▸ ih hd hf
  | handle _ ht hhandled hu ih =>
    obtain ⟨d₁, hd₁, hposted⟩ := ih hd hf
    cases ht.symm.trans hd₁
    have hall := hposted.trans (hhandled.posted hposted.furnished)
    rw [List.append_nil] at hall
    exact ⟨_, hu, hall⟩
  | deferred _ ht hb _ hu ih =>
    obtain ⟨d₁, hd₁, hposted⟩ := ih hd hf
    cases ht.symm.trans hd₁
    rw [ht] at hu
    exact ⟨_, hu, hposted.trans (.count hposted.furnished (Dispatcher.due_deferred hb _ _))⟩
  | bound _ ht hb _ _ _ hw ih ihinner =>
    obtain ⟨d₁, hd₁, hposted⟩ := ih hd hf
    cases ht.symm.trans hd₁
    obtain ⟨d₂, hd₂, hinner⟩ := ihinner ht hposted.furnished
    rw [hd₂] at hw
    have hall := hposted.trans hinner
    -- the binder is still what it was when it was asked
    obtain ⟨tally, hb'⟩ := hinner.retains.binders _ _ _ ⟨_, hb⟩
    have hdue := Dispatcher.due_creditee hall.furnished hb'
    exact ⟨_, hw, hall.trans (.count hall.furnished (hdue _ _))⟩

end Dealings

/-- Dealings with dispatcher `i` that answer these requests to bind, in order, and if they are
nested others besides. -/
def Deals (i : Nat) (nested : Prop) (answers : List Answer) (e t : Engine σ) : Prop :=
  ∃ log, Dealings i log e t ∧ answers.Sublist (log.map Posting.answer) ∧
    (¬ nested → log.map Posting.answer = answers)

namespace Deals

variable {first second : List Answer}

theorem refl (e : Engine σ) : Deals i nested [] e e :=
  ⟨[], .refl e, .slnil, fun _ => rfl⟩

theorem trans (h : Deals i nested first e t) (k : Deals i nested second t u) :
    Deals i nested (first ++ second) e u := by
  obtain ⟨log, hlog, hsub, hexact⟩ := h
  obtain ⟨more, hmore, hsub', hexact'⟩ := k
  refine ⟨log ++ more, hlog.trans hmore, ?_, fun hnested => ?_⟩
  · rw [List.map_append]
    exact hsub.append hsub'
  · rw [List.map_append, hexact hnested, hexact' hnested]

/-- What leaves the dispatcher alone is no dealing with it. -/
theorem of_aside (h : t.dispatchers[i]? = e.dispatchers[i]?) : Deals i nested [] e t :=
  ⟨[], (Dealings.refl e).aside h, .slnil, fun _ => rfl⟩

theorem of_handled {d d' : Dispatcher} (hd : e.dispatchers[i]? = some d) (h : d.Handled d')
    (ht : t.dispatchers[i]? = some d') : Deals i nested [] e t :=
  ⟨[], (Dealings.refl e).handle hd h ht, .slnil, fun _ => rfl⟩

/-- While an operation is judged nobody but the resolver deals. -/
theorem judge {resolver : Resolver (Engine σ)} (hr : resolver.Within (Deals i nested []))
    (op : Operation) (types : Registry) (emptyResult : Value) (operands : List Operand)
    (e : Engine σ) :
    Deals i nested [] e ((op.judge ⟨resolver, types, emptyResult⟩ operands).exec e).2 :=
  Operation.judge_within (R := Deals i nested []) refl trans hr operands e

end Deals

theorem getElem?_modify_self (dispatchers : Array Dispatcher) (i : Nat)
    (f : Dispatcher → Dispatcher) : (dispatchers.modify i f)[i]? = dispatchers[i]?.map f := by
  rw [Array.getElem?_modify, if_pos rfl]

theorem exec_binder_of_none {b : BinderRef}
    (h : (e.dispatchers[b.dispatcher]?.bind fun d => d.binders[b.binder]?) = none) :
    ∃ p, (binder b).exec e = (.error p, e) := by
  cases hd : e.dispatchers[b.dispatcher]? with
  | none =>
    refine ⟨.unknownDispatcher b.dispatcher, ?_⟩
    rw [binder, Act.exec_bind_error (t := e) (p := .unknownDispatcher b.dispatcher)]
    rw [dispatcher, Act.exec_bind_ok (Act.exec_get e), hd]
    rfl
  | some d =>
    rw [hd, Option.bind_some] at h
    refine ⟨.unknownBinder b.binder, ?_⟩
    rw [binder, Act.exec_bind_ok (exec_dispatcher hd), h]
    rfl

/-- A request to bind is a mistake that changes nothing, or it is put off, or the verdict decides.
-/
theorem exec_bind_cases (host : Host σ) (b : BinderRef) (operands : List Operand)
    (fallback : Option Rule) (e : Engine σ) :
    (∃ p, (bind host b operands fallback).exec e = (.error p, e)) ∨
    ∃ d binder, e.dispatchers[b.dispatcher]? = some d ∧ d.binders[b.binder]? = some binder ∧
      (Operand.pending operands ≠ [] ∧ (bind host b operands fallback).exec e =
          (.ok (.deferred (Operand.pending operands)), { e with
            dispatchers :=
              e.dispatchers.modify b.dispatcher (·.modifyTally b.binder (·.countDeferral)) }) ∨
        Operand.pending operands = [] ∧ (bind host b operands fallback).exec e =
          match (binder.operation.judge ⟨host.resolver b.dispatcher, d.types, d.emptyResult⟩
              operands).exec e with
          | (.ok verdict, t) =>
            (.ok (.bound (verdict.rule fallback)), { t with
              dispatchers := t.dispatchers.modify b.dispatcher
                (·.modifyTally (binder.creditee b.binder operands)
                  (·.countRule (verdict.rule fallback))) })
          | (.error p, t) => (.error p, t)) := by
  cases h : e.dispatchers[b.dispatcher]?.bind fun d => d.binders[b.binder]? with
  | none =>
    obtain ⟨p, hp⟩ := exec_binder_of_none h
    exact .inl ⟨p, Act.exec_bind_error hp⟩
  | some binder =>
    obtain ⟨d, hd, hb⟩ := Option.bind_eq_some_iff.mp h
    by_cases hn : operands.length = binder.operation.operandCount
    · refine .inr ⟨d, binder, hd, hb, ?_⟩
      by_cases hp : Operand.pending operands = []
      · exact .inr ⟨hp, exec_bind_of_known hd hb hn (Operand.pending_eq_nil_iff.mp hp)⟩
      · exact .inl ⟨hp, exec_bind_of_pending hd hb hn hp⟩
    · exact .inl ⟨_, exec_bind_of_length_ne hd hb hn⟩

/-- What is done with a dispatcher from outside. -/
inductive Deal where
  | request (supply : Supply) (op : Operation)
  | clear
  | bind (binder : Nat) (operands : List Operand) (fallback : Option Rule)

/-- Deals with dispatcher `i`; binding answers. -/
def deal (host : Host σ) (i : Nat) : Deal → Act (Engine σ) (List Answer)
  | .request supply op => do
    let _ ← onDispatcher i (supply.get · op)
    pure []
  | .clear => do
    modifyDispatcher i Dispatcher.clear
    pure []
  | .bind n operands fallback => do
    let binding ← bind host ⟨i, n⟩ operands fallback
    pure [⟨n, operands, binding⟩]

/-- What is answered to a deal: nothing where it panics. -/
def answered (r : Except Panic (List Answer)) : List Answer :=
  r.toOption.getD []

/-- What is answered along some deals. -/
def answers (host : Host σ) (i : Nat) (e : Engine σ) : List Deal → List Answer
  | [] => []
  | x :: xs => answered ((deal host i x).exec e).1 ++ answers host i ((deal host i x).exec e).2 xs

def dealt (host : Host σ) (i : Nat) (e : Engine σ) (deals : List Deal) : Engine σ :=
  deals.foldl (fun e x => ((deal host i x).exec e).2) e

/-- Binding is a dealing, if the resolver does nothing but deal. -/
theorem bind_deals (hr : (host.resolver i).Within (Deals i nested [])) (n : Nat)
    (operands : List Operand) (fallback : Option Rule) (e : Engine σ) :
    Deals i nested
      (answered (((bind host ⟨i, n⟩ operands fallback).exec e).1.map fun r => [⟨n, operands, r⟩])) e
      ((bind host ⟨i, n⟩ operands fallback).exec e).2 := by
  rcases exec_bind_cases host ⟨i, n⟩ operands fallback e with
    ⟨p, hbind⟩ | ⟨d, binder, hd, hb, ⟨hp, hbind⟩ | ⟨hp, hbind⟩⟩
  · rw [hbind]
    exact .refl e
  · rw [hbind]
    exact ⟨_, (Dealings.refl e).deferred hd hb hp (getElem?_modify_self _ _ _), .refl _,
      fun _ => rfl⟩
  · have hjudged := Deals.judge hr binder.operation d.types d.emptyResult operands e
    rw [hbind]
    split
    next verdict t hverdict =>
      rw [hverdict] at hjudged
      obtain ⟨inner, hinner, -, hexact⟩ := hjudged
      refine ⟨_, (Dealings.refl e).bound hd hb hp hverdict hinner (getElem?_modify_self _ _ _), ?_,
        fun hnested => ?_⟩
      · rw [List.map_append]
        exact List.sublist_append_right _ _
      · rw [List.nil_append, List.map_append, hexact hnested]
        rfl
    next p t hverdict =>
      rw [hverdict] at hjudged
      exact hjudged

theorem deal_deals (hr : (host.resolver i).Within (Deals i nested [])) (x : Deal) (e : Engine σ) :
    Deals i nested (answered ((deal host i x).exec e).1) e ((deal host i x).exec e).2 := by
  cases x with
  | request supply op =>
    cases hd : e.dispatchers[i]? with
    | none =>
      rw [deal, Act.exec_bind_error (exec_onDispatcher_of_none hd _)]
      exact .refl e
    | some d =>
      rw [deal, Act.exec_bind_ok (exec_onDispatcher hd _)]
      refine .of_handled hd (.get supply op) ?_
      exact (getElem?_modify_self _ _ _).trans (by rw [hd]; rfl)
  | clear =>
    rw [deal, Act.exec_bind_ok (exec_modifyDispatcher _ _ _)]
    cases hd : e.dispatchers[i]? with
    | none => exact .of_aside ((getElem?_modify_self _ _ _).trans (by rw [hd]; rfl))
    | some d => exact .of_handled hd .clear ((getElem?_modify_self _ _ _).trans (by rw [hd]; rfl))
  | bind n operands fallback =>
    rw [deal, Act.exec_bind_pure]
    exact bind_deals hr n operands fallback e

theorem dealt_deals (hr : (host.resolver i).Within (Deals i nested [])) (deals : List Deal)
    (e : Engine σ) : Deals i nested (answers host i e deals) e (dealt host i e deals) := by
  induction deals generalizing e with
  | nil => exact .refl e
  | cons x xs ih => exact (deal_deals hr x e).trans (ih _)

section Nested

/-- Nested dealings need not answer anything outside. -/
theorem Deals.silent {first : List Answer} (h : Deals i True first e t) : Deals i True [] e t := by
  obtain ⟨log, hlog, -, -⟩ := h
  exact ⟨log, hlog, List.nil_sublist _, fun hnested => absurd trivial hnested⟩

variable (hh : host.Within (Deals i True []))
include hh

/-- To bind with any dispatcher is to deal with it, or leaves dispatcher `i` alone. -/
theorem bind_within_deals (b : BinderRef) (operands : List Operand) (fallback : Option Rule) :
    Act.Within (Deals i True []) (bind host b operands fallback) := by
  by_cases hi : b.dispatcher = i
  · subst hi
    exact fun e => (bind_deals (hh.resolver b.dispatcher) b.binder operands fallback e).silent
  · refine bind_within Deals.refl Deals.trans (hh.resolver b.dispatcher) (fun e n f => ?_) operands
      fallback
    refine .of_aside ?_
    rw [Array.getElem?_modify, if_neg hi]

theorem ruleFor_within_deals (index : Nat) (operands : List Value) :
    Act.Within (Deals i True []) (ruleFor host index operands) := by
  have hsite : ∀ f, Act.Within (Deals (σ := σ) i True []) (modifySite index f) :=
    fun f e => .of_aside rfl
  refine Act.within_bind (R := Deals i True []) Deals.trans ?_ fun s => ?_
  · refine Act.within_bind (R := Deals i True []) Deals.trans (fun e => .refl e) fun e => ?_
    split
    next => exact Act.within_pure Deals.refl _
    next => exact Act.within_throw Deals.refl _
  dsimp only
  refine Act.within_bind (R := Deals i True []) Deals.trans (hsite _) fun _ => ?_
  split
  next => exact Act.within_pure Deals.refl _
  next =>
    refine Act.within_bind (R := Deals i True []) Deals.trans (bind_within_deals hh _ _ _)
      fun binding => ?_
    split
    next =>
      exact Act.within_bind (R := Deals i True []) Deals.trans (hsite _) fun _ =>
        Act.within_pure Deals.refl _
    next => exact Act.within_throw Deals.refl _

/-- Executions of call sites are dealings, so that a resolver may execute call sites as well. -/
theorem execute_deals (index : Nat) (operands : List Value) :
    Run.Within (Deals i True []) (execute host index operands) := by
  have hpack : ∀ values : List Value, Act.Within (Deals (σ := σ) i True []) (pack values) :=
    pack_within Deals.refl fun e n => .of_aside rfl
  exact execute_within_of_ruleFor Deals.refl Deals.trans (call_within hh.routine hpack)
    (ruleFor_within_deals hh index operands)

end Nested

/-- The tallies of a dispatcher account for all that its binders are asked. Take a new dispatcher,
and have its binders made, dropped and asked, whatever the operations, operands and rules to fall
back on are and whatever the resolver answers; it may also deal with the dispatcher itself. Then
there is a log of all requests to bind that did not panic. All rules and deferrals together are as
many as these. Each is credited to one binder, which is the one that was asked, or for a rule for a
function that is called as a member the binder for the call alone. Each tally has the rules and the
deferrals that are credited to its binder. It remembers the different guards of these rules in
order, and as many as there are, up to the limit. -/
theorem binds_accounted (hr : (host.resolver i).Within (Deals i nested []))
    {settings : Settings} {types : Registry} {storage : Identity}
    (hd : e.dispatchers[i]? = some (.new settings types storage)) (deals : List Deal) :
    ∃ d log, (dealt host i e deals).dispatchers[i]? = some d ∧
      Dealings i log e (dealt host i e deals) ∧
      (answers host i e deals).Sublist (log.map Posting.answer) ∧
      (¬ nested → log.map Posting.answer = answers host i e deals) ∧
      (d.binders.toList.map fun b => b.tally.rules + b.tally.deferrals).sum = log.length ∧
      (∀ p ∈ log, d.Due p) ∧
      ∀ n binder, d.binders[n]? = some binder →
        let counted := Posting.creditedTo log n
        let guards := counted.filterMap Binding.guard?
        binder.tally.rules = counted.countP (!Binding.isDeferred ·) ∧
          binder.tally.deferrals = counted.countP Binding.isDeferred ∧
          binder.tally.variants = guards.eraseDups.take Tally.variantLimit ∧
          binder.tally.variants.length = min Tally.variantLimit guards.eraseDups.length ∧
          (guards.eraseDups.Pairwise fun g h => (g == h) = false) ∧
          ∀ gs : List Guard, (∀ g ∈ gs, g ∈ guards) →
            (gs.Pairwise fun g h => (g == h) = false) → gs.length ≤ guards.eraseDups.length := by
  obtain ⟨log, hlog, hsub, hexact⟩ := dealt_deals hr deals e
  obtain ⟨d, hd', hposted⟩ := hlog.posted hd (Dispatcher.furnished_new settings types storage)
  refine ⟨d, log, hd', hlog, hsub, hexact, hposted.sum_tallies, hposted.due, fun n binder hb => ?_⟩
  obtain ⟨hrules, hdeferrals, hvariants, hlength⟩ := Tally.post_spec (Posting.creditedTo log n)
  obtain ⟨-, hdifferent, hmost⟩ :=
    eraseDups_spec ((Posting.creditedTo log n).filterMap Binding.guard?)
  rw [hposted.tally_eq_post hb]
  exact ⟨hrules, hdeferrals, hvariants, hlength, hdifferent, hmost⟩

/-- Hosts that are nested in one another deal with the dispatcher while they answer. -/
theorem nestedHost_deals (depth : Nat) : (nestedHost depth).Within (Deals 0 True []) := by
  have hsmall : (smallResolver (σ := Engine Unit)).Within (Deals 0 True []) :=
    smallResolver_within Deals.refl Deals.trans
  induction depth with
  | zero => exact ⟨fun _ => hsmall, fun _ _ => Deals.refl⟩
  | succ depth ih =>
    refine ⟨fun _ => { hsmall with binary := fun operator left right => ?_ },
      fun _ _ => Deals.refl⟩
    refine Act.within_bind (R := Deals 0 True []) Deals.trans ?_ fun _ =>
      hsmall.binary operator left right
    exact execute_deals ih 0 [.integer 1, .integer 2]

end Engine

/-- An engine with a new dispatcher, and a call site for the first binder that it will make. -/
def blankEngine : Engine Unit where
  dispatchers := #[.new {} .initial ⟨0⟩]
  sites := #[{ binder := ⟨0, 0⟩, kind := .binary, maxRules := 1 }]
  fresh := 1
  host := ()

/-- Integers are added, once with both known and once not yet; and of a member a function and nil
are called, and then nothing. -/
def accountedDeals : List Engine.Deal :=
  [.request .shared (.ofOperator .add false),
    .request .shared (.invokeMember ⟨"run", false⟩ (.positional 1)),
    .bind 0 [.known (.integer 3), .known (.integer 4)] none,
    .bind 0 [.known (.integer 3), .unknown .integer] none,
    .bind 2 [.known (.callable full), .known (.integer 7)] none,
    .bind 2 [.known .nil, .known (.integer 7)] none,
    .bind 2 [] none]

/-- The first addition is counted three times, for the host adds twice more while it answers, and
the second is put off. The function is counted for the call and nil for the member, and a row of
operands that is too short is counted nowhere. -/
theorem binds_accounted_nested : ∃ (d : Dispatcher) (log : List Posting),
    (Engine.dealt (Engine.nestedHost 2) 0 blankEngine accountedDeals).dispatchers[0]? = some d ∧
    (Engine.answers (Engine.nestedHost 2) 0 blankEngine accountedDeals).Sublist
      (log.map Posting.answer) ∧
    (Engine.answers (Engine.nestedHost 2) 0 blankEngine accountedDeals).length = 4 ∧
    log.length = 6 ∧
    (d.binders.toList.map fun b => (b.tally.rules, b.tally.deferrals, b.tally.variants.length)) =
      [(3, 1, 1), (1, 0, 1), (1, 0, 1)] := by
  obtain ⟨d, log, hd, -, hsub, -, hsum, -⟩ := Engine.binds_accounted
    ((Engine.nestedHost_deals 2).resolver 0) (e := blankEngine) rfl accountedDeals
  have htallies : (Engine.dealt (Engine.nestedHost 2) 0 blankEngine
      accountedDeals).dispatchers[0]?.map (fun d => d.binders.toList.map fun b =>
        (b.tally.rules, b.tally.deferrals, b.tally.variants.length)) =
      some [(3, 1, 1), (1, 0, 1), (1, 0, 1)] := by decide +kernel
  rw [hd, Option.map_some, Option.some.injEq] at htallies
  refine ⟨d, log, hd, hsub, by decide +kernel, ?_, htallies⟩
  have hcounts := congrArg (List.map fun c : Nat × Nat × Nat => c.1 + c.2.1) htallies
  rw [List.map_map] at hcounts
  rw [← hsum, show (d.binders.toList.map fun b => b.tally.rules + b.tally.deferrals) = [4, 1, 1]
    from hcounts]
  rfl

end Dispatch
