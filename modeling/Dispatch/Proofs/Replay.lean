import Dispatch.Proofs.Course

/-!
# Replaying kept rules

Where an operation comes to a verdict on each row of operands that does not depend on the state
(`Settles`), all rules that a call site keeps are rules that it would bind again for some row. This
is the invariant of every course of a call site (`Kept`, `Kept.course`).

Replaying such a rule is sound on the rows that its guard lets through if those rows would be bound
to the same code (`Sound`). Then the site always runs what a fresh bind would give
(`Kept.transparentAt`), and so along any steps (`transparent_of_sound`). There is no other way: a
site that may keep a rule is found out by two executions (`fragment_eq_of_transparent`).

In the runtime: `CallSite.execute` and `SiteState.lookup`.
-/

namespace Dispatch

/-- What a cache keeps after recording a rule, it kept before or it is that rule. -/
theorem RuleCache.mem_rules_record {limit : Nat} {r r' : Rule} {c : RuleCache}
    (h : r' ∈ (c.record limit r).rules) : r' ∈ c.rules ∨ r' = r := by
  rcases record_cases limit r c with hc | hc | hc
  · rw [hc] at h
    exact .inl h
  · rw [hc, List.mem_append, List.mem_singleton] at h
    exact h
  · rw [hc] at h
    exact absurd h List.not_mem_nil

namespace Engine

variable {σ : Type} {host : Host σ} {index : Nat} {e t : Engine σ} {s : Site} {x : Backdrop}
  {V : List Value → Prop} {verdict : List Value → Verdict} {rule : List Value → Rule}

/-- On rows of `V` the operation comes to these verdicts, and asking for them changes nothing. -/
def Settles (host : Host σ) (b : BinderRef) (x : Backdrop) (V : List Value → Prop)
    (verdict : List Value → Verdict) : Prop :=
  ∀ v, V v → v.length = x.operation.operandCount →
    x.operation.judge (x.scope (host.resolver b.dispatcher)) (v.map .known) = pure (verdict v)

/-- Binding answers with the rule of the verdict, and leaves a trace in some tally only. -/
theorem exec_bind_of_settles {b : BinderRef} (hx : e.backdrop b = some x)
    (hj : Settles host b x V verdict) {v : List Value} (hv : V v)
    (hn : v.length = x.operation.operandCount) (fallback : Option Rule) :
    ∃ i f, (bind host b (v.map .known) fallback).exec e =
      (.ok (.bound ((verdict v).rule fallback)),
        { e with dispatchers := e.dispatchers.modify b.dispatcher (·.modifyTally i f) }) := by
  obtain ⟨d, binder, hd, hb, rfl⟩ := backdrop_eq_some.mp hx
  have hjudge := hj v hv hn
  dsimp only [Backdrop.scope] at hjudge hn
  refine ⟨binder.creditee b.binder (v.map .known), (·.countRule ((verdict v).rule fallback)), ?_⟩
  rw [exec_bind_of_length_eq hd hb (by rw [List.length_map, hn]),
    exec_bindCounted_of_known hd hb (Operand.pending_known v), hjudge]
  rfl

/-- A row of the wrong length panics, and nothing is asked. -/
theorem exec_bind_of_wrong_length (host : Host σ) {b : BinderRef} (hx : e.backdrop b = some x)
    {v : List Value} (hn : v.length ≠ x.operation.operandCount) (fallback : Option Rule) :
    ∃ p, (bind host b (v.map .known) fallback).exec e = (.error p, e) := by
  obtain ⟨d, binder, hd, hb, rfl⟩ := backdrop_eq_some.mp hx
  exact ⟨_, exec_bind_of_length_ne hd hb (by rw [List.length_map]; exact hn)⟩

/-- On a miss the rule of the verdict is bound, and kept if it applies. -/
theorem exec_ruleFor_of_miss (hs : e.sites[index]? = some s) (hx : e.backdrop s.binder = some x)
    (hj : Settles host s.binder x V verdict) {v : List Value} (hv : V v)
    (hn : v.length = x.operation.operandCount) (hfound : s.cache.find? v = none) :
    ∃ i f, (ruleFor host index v).exec e = (.ok ((verdict v).rule s.fallback),
      { e with
        dispatchers := e.dispatchers.modify s.binder.dispatcher (·.modifyTally i f)
        sites := (e.sites.modify index fun _ => { s with misses := s.misses + 1 }).modify index
          (·.keep ((verdict v).rule s.fallback) v) }) := by
  have hmissed : ({ e with sites := e.sites.modify index fun _ =>
      { s with misses := s.misses + 1 } } : Engine σ).backdrop s.binder = some x := hx
  obtain ⟨i, f, hbind⟩ := exec_bind_of_settles hmissed hj hv hn s.fallback
  refine ⟨i, f, ?_⟩
  rw [exec_ruleFor_of_not_found hs hfound, hbind]

/-- Call site `index` is `s` but for its rules and its counts, and it keeps, within its limit, rules
for rows of `V`. -/
structure Kept (index : Nat) (s : Site) (x : Backdrop) (V : List Value → Prop)
    (rule : List Value → Rule) (t : Engine σ) : Prop where
  backdrop : t.backdrop s.binder = some x
  site : ∃ c hits misses,
    t.sites[index]? = some { s with cache := c, hits := hits, misses := misses } ∧
    c.rules.length ≤ s.maxRules ∧
    ∀ r ∈ c.rules, ∃ u, V u ∧ u.length = x.operation.operandCount ∧ r = rule u

namespace Kept

theorem of_unused (h : Unused index s x e) : Kept index s x V rule e := by
  refine ⟨h.backdrop, .empty, s.hits, s.misses, ?_, Nat.zero_le _,
    fun r hr => absurd hr List.not_mem_nil⟩
  rw [h.site, ← h.cache]

theorem aside (h : Kept index s x V rule e) (ha : Aside index s.binder e t) :
    Kept index s x V rule t :=
  ⟨ha.backdrop.trans h.backdrop, by rw [ha.site]; exact h.site⟩

theorem reset (h : Kept index s x V rule e) :
    Kept index s x V rule ((modifySite index Site.reset).exec e).2 := by
  obtain ⟨hx, c, hits, misses, hs, -, -⟩ := h
  refine ⟨hx, .empty, hits, misses, ?_, Nat.zero_le _, fun r hr => absurd hr List.not_mem_nil⟩
  rw [exec_modifySite, Array.getElem?_modify, if_pos rfl, hs]
  rfl

/-- Finding a rule keeps what is kept within what it should be: on a hit nothing is recorded, and on
a miss at most the rule for the row itself. -/
theorem find (h : Kept index s x V (fun v => (verdict v).rule s.fallback) e)
    (hj : Settles host s.binder x V verdict) {v : List Value} (hv : V v) :
    Kept index s x V (fun v => (verdict v).rule s.fallback)
      ((ruleFor host index v).exec e).2 := by
  obtain ⟨hx, c, hits, misses, hs, hlen, hrules⟩ := h
  cases hfound : c.find? v with
  | some r =>
    -- a hit is counted and nothing else
    rw [exec_ruleFor_of_found hs hfound]
    refine ⟨hx, c, hits + 1, misses, ?_, hlen, hrules⟩
    rw [Array.getElem?_modify, if_pos rfl, hs]
    rfl
  | none =>
    by_cases hn : v.length = x.operation.operandCount
    · obtain ⟨i, f, hmiss⟩ := exec_ruleFor_of_miss hs hx hj hv hn hfound
      rw [hmiss]
      refine ⟨(backdrop_modifyTally _ _ _ _ _).trans hx, ?_⟩
      dsimp only
      rw [Array.getElem?_modify, if_pos rfl, Array.getElem?_modify, if_pos rfl, hs,
        Option.map_some, Option.map_some, Site.keep]
      split
      next happlies =>
        refine ⟨_, hits, misses + 1, rfl, RuleCache.length_rules_record hlen _, fun r hr => ?_⟩
        rcases RuleCache.mem_rules_record hr with hr | rfl
        · exact hrules r hr
        · exact ⟨v, hv, hn, rfl⟩
      next => exact ⟨c, hits, misses + 1, rfl, hlen, hrules⟩
    · -- binding panics after the miss was counted, and no rule is kept
      have hmissed : ({ e with sites := e.sites.modify index fun _ =>
          { s with cache := c, hits := hits, misses := misses + 1 } } : Engine σ).backdrop
            s.binder = some x := hx
      obtain ⟨p, hbind⟩ := exec_bind_of_wrong_length host hmissed hn s.fallback
      rw [exec_ruleFor_of_not_found hs hfound]
      dsimp only
      rw [hbind]
      refine ⟨hx, c, hits, misses + 1, ?_, hlen, hrules⟩
      dsimp only
      rw [Array.getElem?_modify, if_pos rfl, hs]
      rfl

/-- What a call site keeps stays so along every course. -/
theorem course (h : Kept index s x V (fun v => (verdict v).rule s.fallback) e)
    (hj : Settles host s.binder x V verdict) (hc : Course host index s.binder V e t) :
    Kept index s x V (fun v => (verdict v).rule s.fallback) t := by
  induction hc with
  | refl => exact h
  | aside _ ha ih => exact ih.aside ha
  | find _ hv ih => exact ih.find hj hv
  | reset _ ih => exact ih.reset

end Kept

/-- A row that the guard of another row's rule lets through would be bound to the same code. -/
def Sound (n : Nat) (V : List Value → Prop) (rule : List Value → Rule) : Prop :=
  ∀ u w, V u → V w → u.length = n → w.length = n → (rule u).applies w = true →
    (rule u).fragment = (rule w).fragment

/-- The rule that is run is bound anew, or it was kept and is as good as the one for the row. -/
theorem Kept.ruleFor_fragment (h : Kept index s x V (fun v => (verdict v).rule s.fallback) e)
    (hj : Settles host s.binder x V verdict)
    (hsound : s.maxRules = 0 ∨
      Sound x.operation.operandCount V fun v => (verdict v).rule s.fallback)
    {v : List Value} (hv : V v) (hn : v.length = x.operation.operandCount) :
    ∃ r, ((ruleFor host index v).exec e).1 = .ok r ∧
      r.fragment = ((verdict v).rule s.fallback).fragment := by
  obtain ⟨hx, c, hits, misses, hs, hlen, hrules⟩ := h
  cases hfound : c.find? v with
  | some r =>
    refine ⟨r, by rw [exec_ruleFor_of_found hs hfound], ?_⟩
    have hmem : r ∈ c.rules := List.mem_of_find?_eq_some hfound
    have happlies : r.applies v = true :=
      List.find?_some (p := fun r : Rule => r.applies v) hfound
    -- it was bound for some row `u`, and applies to `v` as well
    obtain ⟨u, hu, hun, rfl⟩ := hrules r hmem
    rcases hsound with hzero | hsound
    · rw [hzero, Nat.le_zero, List.length_eq_zero_iff] at hlen
      rw [hlen] at hmem
      exact absurd hmem List.not_mem_nil
    · exact hsound u v hu hv hun hn happlies
  | none =>
    obtain ⟨i, f, hmiss⟩ := exec_ruleFor_of_miss hs hx hj hv hn hfound
    exact ⟨_, by rw [hmiss], rfl⟩

/-- On these operands the call site runs just the code that binding them anew would give. -/
def TransparentAt (host : Host σ) (index : Nat) (b : BinderRef) (operands : List Value)
    (e : Engine σ) : Prop :=
  ∃ kept fresh t, (ruleFor host index operands).exec e = (.ok kept, t) ∧
    ((bind host b (operands.map .known) none).exec e).1 = .ok (.bound fresh) ∧
    kept.fragment = fresh.fragment ∧
    (execute host index operands).exec e = (fresh.run (call host) operands).exec t

/-- A call site without a fallback that replays soundly is transparent. -/
theorem Kept.transparentAt (h : Kept index s x V (fun v => (verdict v).rule s.fallback) e)
    (hj : Settles host s.binder x V verdict) (hfallback : s.fallback = none)
    (hsound : s.maxRules = 0 ∨
      Sound x.operation.operandCount V fun v => (verdict v).rule s.fallback)
    {v : List Value} (hv : V v) (hn : v.length = x.operation.operandCount) :
    TransparentAt host index s.binder v e := by
  obtain ⟨i, f, hbind⟩ := exec_bind_of_settles h.backdrop hj hv hn none
  obtain ⟨r, hr, hfragment⟩ := h.ruleFor_fragment hj hsound hv hn
  rw [hfallback] at hfragment
  have hfind : (ruleFor host index v).exec e = (.ok r, ((ruleFor host index v).exec e).2) :=
    Prod.ext hr rfl
  refine ⟨r, _, _, hfind, by rw [hbind], hfragment, ?_⟩
  rw [exec_execute, hfind]
  show (r.fragment.evaluate (call host) v).exec _ = _
  rw [hfragment]
  rfl

/-- Whatever steps were done before, on rows of `V` with the right length the call site is
transparent. -/
def Transparent (host : Host σ) (index : Nat) (b : BinderRef) (n : Nat) (V : List Value → Prop)
    (e : Engine σ) : Prop :=
  ∀ steps : List Step, (∀ v, .execute v ∈ steps → V v ∧ v.length = n) →
    ∀ v, V v → v.length = n → TransparentAt host index b v (after host index e steps)

/-- An unused call site that replays soundly is transparent whatever steps are done. -/
theorem transparent_of_sound (h : Unused index s x e) (hr : Courteous host index s.binder V)
    (hj : Settles host s.binder x V verdict)
    (hsound : s.maxRules = 0 ∨ Sound x.operation.operandCount V fun v => (verdict v).rule none) :
    Transparent host index s.binder x.operation.operandCount V e := by
  intro steps hsteps v hv hn
  have hcourse := course_after hr (fun v hv => (hsteps v hv).1) e
  have hkept := (Kept.of_unused h).course hj hcourse
  exact hkept.transparentAt hj h.fallback (by rw [h.fallback]; exact hsound) hv hn

/-- Two executions find out a call site that finds other code for the second row than a fresh bind
gives. -/
theorem not_transparent_of_kept {b : BinderRef} {n : Nat} {u w : List Value} {kept fresh : Rule}
    (hu : V u ∧ u.length = n) (hw : V w ∧ w.length = n)
    (hkept : ((ruleFor host index w).exec (after host index e [.execute u])).1 = .ok kept)
    (hfresh : ((bind host b (w.map .known) none).exec (after host index e [.execute u])).1 =
      .ok (.bound fresh))
    (hne : kept.fragment ≠ fresh.fragment) : ¬ Transparent host index b n V e := by
  intro ht
  obtain ⟨kept', fresh', t, hfind, hbind, hfragment, -⟩ :=
    ht [.execute u] (fun v hv => by cases List.mem_singleton.mp hv; exact hu) w hw.1 hw.2
  rw [hfind] at hkept
  rw [hbind] at hfresh
  cases hkept
  cases hfresh
  exact hne hfragment

/-- After one execution a call site that kept nothing keeps the rule that was bound, if there is
room for it, it applies, and running it leaves the call site alone. -/
theorem after_first (hs : e.sites[index]? = some s) (hempty : s.cache = .empty)
    (hx : e.backdrop s.binder = some x) (hj : Settles host s.binder x V verdict)
    (hlimit : s.maxRules ≠ 0) {u : List Value} (hu : V u)
    (hun : u.length = x.operation.operandCount)
    (hself : ((verdict u).rule s.fallback).applies u = true)
    (hquiet : Run.Within (Aside index s.binder) (((verdict u).rule s.fallback).run (call host) u)) :
    (after host index e [.execute u]).sites[index]? = some
        { s with cache := .monomorphic ((verdict u).rule s.fallback), misses := s.misses + 1 } ∧
      (after host index e [.execute u]).backdrop s.binder = some x := by
  have hfound : s.cache.find? u = none := by
    rw [hempty]
    rfl
  obtain ⟨i, f, hmiss⟩ := exec_ruleFor_of_miss hs hx hj hu hun hfound
  have hexecuted : Aside index s.binder ((ruleFor host index u).exec e).2
      (after host index e [.execute u]) := by
    show Aside index s.binder _ ((perform host index (.execute u)).exec e).2
    rw [exec_perform_execute, exec_execute, hmiss]
    exact hquiet _
  have hcache : s.cache.record s.maxRules ((verdict u).rule s.fallback) =
      .monomorphic ((verdict u).rule s.fallback) := by
    rw [hempty]
    exact if_neg hlimit
  rw [hexecuted.site, hexecuted.backdrop, hmiss]
  refine ⟨?_, (backdrop_modifyTally _ _ _ _ _).trans hx⟩
  dsimp only
  rw [Array.getElem?_modify, if_pos rfl, Array.getElem?_modify, if_pos rfl, hs,
    Option.map_some, Option.map_some, Site.keep, if_pos hself]
  dsimp only
  rw [hcache]

/-- Where a call site that may keep a rule is transparent, the first rule that it keeps is replayed
soundly, if running the rule leaves the call site alone. -/
theorem fragment_eq_of_transparent (h : Unused index s x e) (hj : Settles host s.binder x V verdict)
    (hlimit : s.maxRules ≠ 0) {u w : List Value} (hu : V u) (hw : V w)
    (hun : u.length = x.operation.operandCount) (hwn : w.length = x.operation.operandCount)
    (hself : ((verdict u).rule none).applies u = true)
    (happlies : ((verdict u).rule none).applies w = true)
    (hquiet : Run.Within (Aside index s.binder) (((verdict u).rule none).run (call host) u))
    (ht : Transparent host index s.binder x.operation.operandCount V e) :
    ((verdict u).rule none).fragment = ((verdict w).rule none).fragment := by
  -- execute on `u`, and then look which rule is found for `w`
  have hrule : (verdict u).rule s.fallback = (verdict u).rule none := by rw [h.fallback]
  obtain ⟨kept, fresh, t, hfind, hfresh, hfragment, -⟩ :=
    ht [.execute u] (fun v hv => by cases List.mem_singleton.mp hv; exact ⟨hu, hun⟩) w hw hwn
  obtain ⟨hsite, hbackdrop⟩ := after_first h.site h.cache h.backdrop hj hlimit hu hun
    (hrule ▸ hself) (hrule ▸ hquiet)
  rw [hrule] at hsite
  -- so the rule that is found is the one for `u`, and a fresh bind gives the one for `w`
  have hfound : (RuleCache.monomorphic ((verdict u).rule none)).find? w =
      some ((verdict u).rule none) :=
    List.find?_cons_of_pos happlies
  obtain ⟨j, g, hbind⟩ := exec_bind_of_settles hbackdrop hj hw hwn none
  rw [exec_ruleFor_of_found hsite hfound] at hfind
  rw [hbind] at hfresh
  cases hfind
  cases hfresh
  exact hfragment

end Engine

end Dispatch
