import Dispatch.Proofs.Course
import Dispatch.Proofs.History
import Dispatch.Proofs.Judgement
import Dispatch.Proofs.SmallHost

/-!
# Executions inside executions

A resolver may execute the very call site that it is asked for, and so may routines. All that is
asked of them is that what they do to the call site is to add to its history (`Uses`); what they do
to everything else is their own affair. Then the same holds of an execution as a whole
(`execute_uses`), so that it may stand inside another one, however deep the nesting is.

An execution adds its start to the history, then whatever the resolver adds, then the rule that was
bound, and then whatever the routines add (`Reached.execute`). So whatever is true after every
history is true of the call site at all times: after any steps, and in the middle of them
(`consistent_throughout`).

In the runtime: `CallSite.execute`, re-entered by a `Resolver` or by bodies.
-/

namespace Dispatch

variable {σ : Type}

namespace Engine

/-- What the use of a call site can be relied on for. -/
structure Terms where
  /-- What the binder binds with, at all times. -/
  backdrop : Option Backdrop → Prop
  /-- The rules that are bound for operands. -/
  bound : List Value → Rule → Prop
  /-- Whether executions are nested. -/
  nested : Prop

/-- Call site `index` was `s` once and has the history `es` since. -/
structure Reached (index : Nat) (s : Site) (terms : Terms) (es : List Site.Event) (e : Engine σ) :
    Prop where
  site : e.sites[index]? = some (s.through es)
  lived : s.Lived terms.bound es
  backdrop : terms.backdrop (e.backdrop s.binder)

/-- A change that adds to the history of a call site. -/
def Uses (index : Nat) (s : Site) (terms : Terms) (e t : Engine σ) : Prop :=
  ∀ es, Reached index s terms es e →
    ∃ es', Reached index s terms (es ++ es') t ∧ (¬ terms.nested → Site.started es' = [])

/-- Binding these operands uses the call site, and answers with a rule that may be bound for
them. -/
structure Binds (host : Host σ) (index : Nat) (s : Site) (terms : Terms) (operands : List Value) :
    Prop where
  within : Act.Within (Uses index s terms) (bind host s.binder (operands.map .known) s.fallback)
  bound : ∀ e r t, terms.backdrop (e.backdrop s.binder) →
    (bind host s.binder (operands.map .known) s.fallback).exec e = (.ok (.bound r), t) →
    terms.bound operands r

/-- Routines do nothing to a call site but add to its history. -/
def Routines (host : Host σ) (index : Nat) (s : Site) (terms : Terms) : Prop :=
  ∀ i args, Run.Within (Uses index s terms) (host.routine i args)

variable {host : Host σ} {index : Nat} {s : Site} {terms : Terms} {e t u : Engine σ}
  {es : List Site.Event} {operands : List Value}

namespace Uses

theorem refl (e : Engine σ) : Uses index s terms e e :=
  fun es h => ⟨[], by rw [List.append_nil]; exact h, fun _ => rfl⟩

theorem trans (h : Uses index s terms e t) (k : Uses index s terms t u) :
    Uses index s terms e u := by
  intro es he
  obtain ⟨es', ht, hquiet⟩ := h es he
  obtain ⟨es'', hu, hquiet'⟩ := k _ ht
  refine ⟨es' ++ es'', by rw [← List.append_assoc]; exact hu, fun hnested => ?_⟩
  rw [Site.started_append, hquiet hnested, hquiet' hnested]
  rfl

/-- A change that leaves the call site alone adds nothing to its history. -/
theorem of_aside (h : Aside index s.binder e t) : Uses index s terms e t := by
  intro es he
  refine ⟨[], ?_, fun _ => rfl⟩
  rw [List.append_nil]
  exact ⟨h.site.trans he.site, he.lived, h.backdrop ▸ he.backdrop⟩

theorem of_tally (e : Engine σ) (dispatcher binder : Nat) (f : Tally → Tally) :
    Uses index s terms e
      { e with dispatchers := e.dispatchers.modify dispatcher (·.modifyTally binder f) } :=
  of_aside ⟨rfl, backdrop_modifyTally e s.binder dispatcher binder f⟩

end Uses

/-- Reading a dispatcher changes nothing. -/
theorem dispatcher_within {R : Engine σ → Engine σ → Prop} (hrefl : ∀ e, R e e)
    (htrans : ∀ {e t u}, R e t → R t u → R e u) (i : Nat) :
    Act.Within R (dispatcher (σ := σ) i) := by
  refine Act.within_bind (R := R) htrans (fun e => hrefl e) fun e => ?_
  split
  next => exact Act.within_pure hrefl _
  next => exact Act.within_throw hrefl _

/-- Reading a binder changes nothing. -/
theorem binder_within {R : Engine σ → Engine σ → Prop} (hrefl : ∀ e, R e e)
    (htrans : ∀ {e t u}, R e t → R t u → R e u) (b : BinderRef) :
    Act.Within R (binder (σ := σ) b) := by
  refine Act.within_bind (R := R) htrans (dispatcher_within hrefl htrans _) fun d => ?_
  split
  next => exact Act.within_pure hrefl _
  next => exact Act.within_throw hrefl _

/-- Binding changes the state as the resolver does, and counts in a tally. -/
theorem bind_within {R : Engine σ → Engine σ → Prop} {b : BinderRef} (hrefl : ∀ e, R e e)
    (htrans : ∀ {e t u}, R e t → R t u → R e u) (hr : (host.resolver b.dispatcher).Within R)
    (htally : ∀ e binder f,
      R e { e with dispatchers := e.dispatchers.modify b.dispatcher (·.modifyTally binder f) })
    (operands : List Operand) (fallback : Option Rule) :
    Act.Within R (bind host b operands fallback) := by
  have hcount : ∀ i f, Act.Within R (count (σ := σ) b.dispatcher i f) :=
    fun i f e => htally e i f
  refine Act.within_bind (R := R) htrans (binder_within hrefl htrans b) fun found => ?_
  dsimp only
  split
  next =>
    refine Act.within_bind (R := R) htrans (binder_within hrefl htrans b) fun binder => ?_
    split
    next =>
      refine Act.within_bind (R := R) htrans (dispatcher_within hrefl htrans _) fun d => ?_
      refine Act.within_bind (R := R) htrans (Operation.judge_within hrefl htrans hr _)
        fun verdict => ?_
      exact Act.within_bind (R := R) htrans (hcount _ _) fun _ => Act.within_pure hrefl _
    next => exact Act.within_bind (R := R) htrans (hcount _ _) fun _ => Act.within_pure hrefl _
  next => exact Act.within_throw hrefl _

namespace Reached

/-- One more event happens to the call site. -/
theorem happen (h : Reached index s terms es e) (event : Site.Event)
    (hfollows : event.Follows terms.bound es (s.through es)) {f : Site → Site}
    (hf : f (s.through es) = (s.through es).happen event) :
    Reached index s terms (es ++ [event]) { e with sites := e.sites.modify index f } := by
  refine ⟨?_, h.lived.next hfollows, h.backdrop⟩
  rw [Array.getElem?_modify, if_pos rfl, h.site, Option.map_some, hf, Site.through_concat]

theorem reset (h : Reached index s terms es e) :
    Reached index s terms (es ++ [.reset]) ((modifySite index Site.reset).exec e).2 :=
  h.happen .reset trivial rfl

/-- Every rule that is kept was bound for some operands and holds on them. -/
theorem kept (h : Reached index s terms es e) (hnew : s.New) {r : Rule}
    (hr : r ∈ (s.through es).cache.rules) : ∃ u, terms.bound u r ∧ r.applies u = true := by
  obtain ⟨kept, hsub, hrules, happlies⟩ := (hnew.consistent es).kept
  rw [hrules] at hr
  obtain ⟨⟨u, q⟩, hp, rfl⟩ := List.mem_map.mp hr
  exact ⟨u, h.lived.bound_of_mem (hsub.mem hp), happlies _ hp⟩

/-- Where a rule is found the execution starts with it. -/
theorem exec_ruleFor_hit (host : Host σ) (h : Reached index s terms es e) {r : Rule}
    (hfound : (s.through es).cache.find? operands = some r) :
    ∃ t, Reached index s terms (es ++ [.hit operands r]) t ∧
      (ruleFor host index operands).exec e = (.ok r, t) :=
  ⟨_, h.happen (.hit operands r) hfound rfl, exec_ruleFor_of_found h.site hfound⟩

/-- Where no rule is found the execution starts with a miss, and goes on with binding. -/
theorem exec_ruleFor_miss (host : Host σ) (h : Reached index s terms es e)
    (hfound : (s.through es).cache.find? operands = none) :
    ∃ t, Reached index s terms (es ++ [.miss operands]) t ∧
      (ruleFor host index operands).exec e =
        match (bind host s.binder (operands.map .known) s.fallback).exec t with
        | (.ok (.bound r), u) =>
          (.ok r, { u with sites := u.sites.modify index (·.keep r operands) })
        | (.ok (.deferred pending), u) => (.error (.deferredKnown s.kind pending), u)
        | (.error p, u) => (.error p, u) := by
  have hmiss := h.happen (.miss operands) hfound (f := fun _ =>
    { s.through es with misses := (s.through es).misses + 1 }) rfl
  have hexec := @exec_ruleFor_of_not_found σ e host index _ operands h.site hfound
  obtain ⟨hbinder, hkind, hfallback, -⟩ := s.through_same es
  -- the engine in which the miss is counted
  generalize ({ e with sites := e.sites.modify index fun _ =>
    { s.through es with misses := (s.through es).misses + 1 } } : Engine σ) = t at hmiss hexec
  rw [hbinder, hkind, hfallback] at hexec
  exact ⟨t, hmiss, hexec⟩

/-- Finding a rule starts an execution, and may bind a rule for it. -/
theorem ruleFor (h : Reached index s terms es e) (hb : Binds host index s terms operands) :
    ∃ es', Reached index s terms (es ++ (s.through es).start operands :: es')
      ((ruleFor host index operands).exec e).2 ∧ (¬ terms.nested → Site.started es' = []) := by
  unfold Site.start
  cases hfound : (s.through es).cache.find? operands with
  | some r =>
    obtain ⟨t, hhit, hexec⟩ := h.exec_ruleFor_hit host hfound
    rw [hexec]
    exact ⟨[], hhit, fun _ => rfl⟩
  | none =>
    obtain ⟨missed, hmiss, hexec⟩ := h.exec_ruleFor_miss host hfound
    rw [hexec]
    -- while the rule is bound the resolver may use the call site
    obtain ⟨es', hbound, hquiet⟩ := hb.within missed _ hmiss
    rw [List.append_assoc, List.singleton_append] at hbound
    dsimp only
    split
    next r t hbind =>
      rw [hbind] at hbound
      have hmem : Site.Event.miss operands ∈ es ++ .miss operands :: es' :=
        List.mem_append_right _ (List.mem_cons_self ..)
      have hkept := hbound.happen (.bound operands r)
        ⟨hmem, hb.bound missed r t hmiss.backdrop hbind⟩ (f := (·.keep r operands)) rfl
      rw [List.append_assoc, List.cons_append] at hkept
      refine ⟨es' ++ [.bound operands r], hkept, fun hnested => ?_⟩
      rw [Site.started_append, hquiet hnested]
      rfl
    next hbind =>
      rw [hbind] at hbound
      exact ⟨es', hbound, hquiet⟩
    next hbind =>
      rw [hbind] at hbound
      exact ⟨es', hbound, hquiet⟩

/-- An execution starts, and whatever else happens to the call site comes after its start. -/
theorem execute (h : Reached index s terms es e) (hr : Routines host index s terms)
    (hb : Binds host index s terms operands) :
    ∃ es', Reached index s terms (es ++ (s.through es).start operands :: es')
      ((execute host index operands).exec e).2 ∧ (¬ terms.nested → Site.started es' = []) := by
  obtain ⟨es', hfound, hquiet⟩ := h.ruleFor hb
  rw [exec_execute]
  split
  next r t hexec =>
    rw [hexec] at hfound
    have hcall : ∀ body args, Run.Within (Uses index s terms) (call host body args) :=
      call_within hr fun values e => Uses.of_aside (Aside.of_pack values e)
    obtain ⟨es'', hrun, hquiet'⟩ := Fragment.evaluate_within Uses.refl Uses.trans hcall operands
      r.fragment t _ hfound
    rw [List.append_assoc, List.cons_append] at hrun
    refine ⟨es' ++ es'', hrun, fun hnested => ?_⟩
    rw [Site.started_append, hquiet hnested, hquiet' hnested]
    rfl
  next p t hexec =>
    rw [hexec] at hfound
    exact ⟨es', hfound, hquiet⟩

end Reached

/-- Where executions are nested, an execution is a use of the call site like those nested in it. -/
theorem execute_uses (hnested : terms.nested) (hr : Routines host index s terms)
    (hb : Binds host index s terms operands) :
    Run.Within (Uses index s terms) (execute host index operands) := by
  intro e es h
  obtain ⟨es', hexecuted, -⟩ := h.execute hr hb
  exact ⟨_, hexecuted, fun h => absurd hnested h⟩

theorem reset_uses : Act.Within (Uses (σ := σ) index s terms) (modifySite index Site.reset) :=
  fun _ _ h => ⟨[.reset], h.reset, fun _ => rfl⟩

/-- A course of a call site, on operands that bind as agreed, is a use of it. -/
theorem Course.uses {V : List Value → Prop} (h : Course host index s.binder V e t)
    (hnested : terms.nested) (hb : ∀ v, V v → Binds host index s terms v) :
    Uses index s terms e t := by
  induction h with
  | refl => exact .refl _
  | aside _ ha ih => exact ih.trans (.of_aside ha)
  | find _ hv ih =>
    refine ih.trans fun es hreached => ?_
    obtain ⟨es', hfound, -⟩ := hreached.ruleFor (hb _ hv)
    exact ⟨_, hfound, fun h => absurd hnested h⟩
  | reset _ ih => exact ih.trans (reset_uses _)

/-- The operands of all executions among some steps. -/
def executed (steps : List Step) : List (List Value) :=
  steps.filterMap fun step =>
    match step with
    | .execute operands => some operands
    | .reset => none

/-- Steps add to the history, among other things the start of each execution, in order. -/
theorem Reached.after (h : Reached index s terms es e) (hr : Routines host index s terms)
    {steps : List Step} (hb : ∀ v ∈ executed steps, Binds host index s terms v) :
    ∃ es', Reached index s terms (es ++ es') (after host index e steps) ∧
      (executed steps).Sublist (Site.started es') ∧
      (¬ terms.nested → Site.started es' = executed steps) := by
  induction steps generalizing e es with
  | nil => exact ⟨[], by rw [List.append_nil]; exact h, .slnil, fun _ => rfl⟩
  | cons step steps ih =>
    cases step with
    | execute v =>
      obtain ⟨es₁, hfirst, hquiet⟩ := h.execute hr (hb v (List.mem_cons_self ..))
      obtain ⟨es₂, hrest, hsub, hexact⟩ :=
        ih hfirst fun w hw => hb w (List.mem_cons_of_mem _ hw)
      have hstarted : Site.started ((s.through es).start v :: es₁ ++ es₂) =
          v :: (Site.started es₁ ++ Site.started es₂) := by
        rw [List.cons_append, Site.started, List.filterMap_cons_some (Site.started?_start _ v),
          ← Site.started, Site.started_append]
      rw [List.append_assoc] at hrest
      refine ⟨(s.through es).start v :: es₁ ++ es₂, ?_, ?_, fun hnested => ?_⟩
      · show Reached index s terms _ (Engine.after host index
          ((perform host index (.execute v)).exec e).2 steps)
        rw [exec_perform_execute]
        exact hrest
      · rw [hstarted]
        exact (hsub.trans (List.sublist_append_right _ _)).cons_cons v
      · rw [hstarted, hquiet hnested, hexact hnested]
        rfl
    | reset =>
      obtain ⟨es', hrest, hstarted⟩ := ih h.reset hb
      rw [List.append_assoc] at hrest
      exact ⟨_, hrest, hstarted⟩

/-- Nothing is relied on but whether executions are nested. -/
def Terms.any (nested : Prop) : Terms :=
  ⟨fun _ => True, fun _ _ => True, nested⟩

/-- A host that does nothing to a call site but add to its history. -/
structure Abides (host : Host σ) (index : Nat) (s : Site) (nested : Prop) : Prop where
  resolver : (host.resolver s.binder.dispatcher).Within (Uses index s (.any nested))
  routine : Routines host index s (.any nested)

theorem Abides.binds {nested : Prop} (h : Abides host index s nested) (operands : List Value) :
    Binds host index s (.any nested) operands where
  within := bind_within Uses.refl Uses.trans h.resolver (Uses.of_tally · _) _ _
  bound _ _ _ _ _ := trivial

/-- A new call site is consistent at all times, whatever binds for it, whatever its limit and its
rule to fall back on are, and even if it is executed while it is executed. Until a reset it only
moves forward, and nothing but a reset leads out of its last classification. An execution runs the
earliest rule that applies, and that is a hit; if none applies, that is a miss, and binding
starts. -/
theorem consistent_throughout {nested : Prop} (hs : e.sites[index]? = some s) (hnew : s.New)
    (ha : Abides host index s nested) :
    (∀ steps, ∃ es, Reached index s (.any nested) es (after host index e steps) ∧
      (executed steps).Sublist (Site.started es) ∧
      (¬ nested → Site.started es = executed steps)) ∧
    ∀ es t, Reached index s (.any nested) es t →
      ∃ c, t.sites[index]? = some c ∧ c.maxRules = s.maxRules ∧ c.Consistent es ∧
        (∀ es' (u : Engine σ), Reached index s (.any nested) (es ++ es') u → .reset ∉ es' →
          ∃ c', u.sites[index]? = some c' ∧ c.classification.rank ≤ c'.classification.rank ∧
            (c.classification = .megamorphic →
              c'.classification = .megamorphic ∧ c'.ruleCount = 0)) ∧
        ∀ v,
          (∀ earlier r later, c.cache.rules = earlier ++ r :: later → r.applies v = true →
            (∀ q ∈ earlier, q.applies v = false) →
            ∃ t', Reached index s (.any nested) (es ++ [.hit v r]) t' ∧
              t'.sites[index]? = some { c with hits := c.hits + 1 } ∧
              (execute host index v).exec t = (r.run (call host) v).exec t') ∧
          ((∀ q ∈ c.cache.rules, q.applies v = false) →
            ∃ t', Reached index s (.any nested) (es ++ [.miss v]) t' ∧
              t'.sites[index]? = some { c with misses := c.misses + 1 } ∧
              (execute host index v).exec t =
                match (bind host s.binder (v.map .known) s.fallback).exec t' with
                | (.ok (.bound r), u) => (r.run (call host) v).exec
                    { u with sites := u.sites.modify index (·.keep r v) }
                | (.ok (.deferred pending), u) => (.error (.deferredKnown s.kind pending), u)
                | (.error p, u) => (.error p, u)) := by
  refine ⟨fun steps => ?_, fun es t h => ?_⟩
  · have hreached : Reached index s (.any nested) [] e := ⟨hs, .new, trivial⟩
    exact hreached.after ha.routine fun v _ => ha.binds v
  obtain ⟨-, -, -, hlimit⟩ := s.through_same es
  refine ⟨s.through es, h.site, hlimit, hnew.consistent es, fun es' u hu hreset => ?_,
    fun v => ⟨fun earlier r later hrules happlies hnone => ?_, fun hnone => ?_⟩⟩
  · have hrank := Site.rank_le_through (s.through es) hreset
    rw [← Site.through_append] at hrank
    refine ⟨s.through (es ++ es'), hu.site, hrank, fun hmega => ?_⟩
    rw [hmega] at hrank
    exact Site.megamorphic_of_rank hrank
  · have hfound : (s.through es).cache.find? v = some r := by
      rw [RuleCache.find?, hrules, List.find?_append, List.find?_eq_none.mpr, Option.none_or,
        List.find?_cons_of_pos (p := fun q : Rule => q.applies v) happlies]
      exact fun q hq => Bool.eq_false_iff.mp (hnone q hq)
    obtain ⟨t', hhit, hexec⟩ := h.exec_ruleFor_hit host hfound
    refine ⟨t', hhit, ?_, ?_⟩
    · rw [hhit.site, Site.through_concat]
      rfl
    · rw [exec_execute, hexec]
  · have hfound : (s.through es).cache.find? v = none :=
      List.find?_eq_none.mpr fun q hq => Bool.eq_false_iff.mp (hnone q hq)
    obtain ⟨t', hmiss, hexec⟩ := h.exec_ruleFor_miss host hfound
    refine ⟨t', hmiss, ?_, ?_⟩
    · rw [hmiss.site, Site.through_concat]
      rfl
    · rw [exec_execute, hexec]
      cases (bind host s.binder (v.map .known) s.fallback).exec t' with
      | mk answer u =>
        cases answer with
        | error p => rfl
        | ok binding => cases binding <;> rfl

/-- Hosts that are nested in one another: while it answers about two operands, each but the first
executes the call site through the one before it. -/
def nestedHost : Nat → Host Unit
  | 0 => smallHost
  | depth + 1 =>
    { smallHost with
      resolver := fun _ =>
        { smallResolver with
          binary := fun operator left right => do
            let _ ← (execute (nestedHost depth) 0 [.integer 1, .integer 2]).run
            smallResolver.binary operator left right } }

theorem smallResolver_within {R : σ → σ → Prop} (hrefl : ∀ e, R e e)
    (htrans : ∀ {e t u}, R e t → R t u → R e u) : (smallResolver : Resolver σ).Within R where
  getMember _ _ := Act.within_pure hrefl _
  setMember _ _ _ hconverted := by
    refine Operation.within_answer hrefl htrans (hconverted .integer) fun answer => ?_
    cases answer <;> exact ⟨_, rfl⟩
  getIndex _ _ := Act.within_pure hrefl _
  setIndex _ _ _ := Act.within_pure hrefl _
  invokeMember _ _ _ _ _ := Act.within_pure hrefl _
  bindParameters formal _ args _ := by
    unfold smallResolver
    dsimp only
    split
    next => exact Act.within_pure hrefl _
    next => exact Act.within_pure hrefl _
  binary _ _ _ := Act.within_pure hrefl _
  unary _ _ := Act.within_pure hrefl _
  convert _ _ := Act.within_pure hrefl _

theorem nestedHost_abides (depth : Nat) :
    Abides (nestedHost depth) 0 s True := by
  have hsmall : (smallResolver (σ := Engine Unit)).Within (Uses 0 s (.any True)) :=
    smallResolver_within Uses.refl Uses.trans
  induction depth with
  | zero => exact ⟨hsmall, fun _ _ => Uses.refl⟩
  | succ depth ih =>
    refine ⟨{ hsmall with binary := fun operator left right => ?_ }, fun _ _ => Uses.refl⟩
    refine Act.within_bind (R := Uses 0 s (.any True)) Uses.trans ?_ fun _ =>
      hsmall.binary operator left right
    exact execute_uses trivial ih.routine (ih.binds _)

/-- Integers are added at a call site with room for one rule, and twice again while the rule is
bound; then an integer is added to nil, and the same happens. -/
theorem consistent_throughout_nested :
    ∃ es c, (after (nestedHost 2) 0 (smallEngine (.ofOperator .add false) 1)
        [.execute [.integer 1, .integer 2], .reset, .execute [.integer 3, .nil]]).sites[0]? =
          some c ∧
      c.Consistent es ∧ c.maxRules = 1 ∧ (Site.started es).length = 6 ∧
      [[.integer 1, .integer 2], [.integer 3, .nil]].Sublist (Site.started es) := by
  have hsite : (smallEngine (.ofOperator .add false) 1).sites[0]? =
      some (smallSite (.ofOperator .add false) 1) := rfl
  obtain ⟨hsteps, hreached⟩ :=
    consistent_throughout hsite ⟨rfl, rfl, rfl⟩ (nestedHost_abides 2)
  obtain ⟨es, hafter, hstarted, -⟩ :=
    hsteps [.execute [.integer 1, .integer 2], .reset, .execute [.integer 3, .nil]]
  obtain ⟨c, hc, hlimit, hconsistent, -⟩ := hreached es _ hafter
  have hcounted : (after (nestedHost 2) 0 (smallEngine (.ofOperator .add false) 1)
      [.execute [.integer 1, .integer 2], .reset, .execute [.integer 3, .nil]]).sites[0]?.map
        (fun c => c.hits + c.misses) = some 6 := by decide +kernel
  rw [hc, Option.map_some, Option.some.injEq, hconsistent.counts] at hcounted
  exact ⟨es, c, hc, hconsistent, hlimit, hcounted, hstarted⟩

end Engine

end Dispatch
