import Mathlib.Data.Finset.Card
import Dispatch.Proofs.SmallHost
import Dispatch.Proofs.Verdict

/-!
# Each shape is resolved once

A resolver may answer whatever it likes and change its mind: the guard of the rule that it causes is
decided by the shape of the operands all the same (`judge_yields`). Guards of one shape are equal
and hold on that shape only. So a call site resolves the first row of each shape and no other, as
long as it has room for as many rules as there are shapes; the rules it keeps are for the first rows
(`firsts`), in order.

`Site.use` is what an execution does to a call site that nobody touches meanwhile, and `Resolved`
says what rows of operands have made of it. One use keeps it (`Resolved.use`), and so all
executions do (`serves_after`).

In the runtime: `CallSite.execute` and `SiteState` (`lookup`, `covers`, `record`).
-/

namespace Dispatch

namespace Operation

variable (op : Operation)

/-- The first row of each shape, in the order in which the shapes appear. -/
def firsts (rows : List (List Value)) : List (List Value) :=
  rows.foldl (fun seen v => if op.shape v ∈ seen.map op.shape then seen else seen ++ [v]) []

/-- How many shapes there are among rows. -/
def shapeCount (rows : List (List Value)) : Nat :=
  (rows.map op.shape).toFinset.card

variable {op}

theorem firsts_concat (rows : List (List Value)) (v : List Value) :
    op.firsts (rows ++ [v]) =
      if op.shape v ∈ (op.firsts rows).map op.shape then op.firsts rows
      else op.firsts rows ++ [v] := by
  rw [firsts, List.foldl_append]
  rfl

/-- The first rows have the shapes of all rows, each once. -/
theorem shapes_firsts (rows : List (List Value)) :
    ((op.firsts rows).map op.shape).Nodup ∧
      ∀ a, a ∈ (op.firsts rows).map op.shape ↔ a ∈ rows.map op.shape := by
  induction rows using List.reverseRecOn with
  | nil => exact ⟨List.nodup_nil, fun a => Iff.rfl⟩
  | append_singleton rows v ih =>
    obtain ⟨hnodup, hmem⟩ := ih
    rw [firsts_concat]
    split
    next h =>
      refine ⟨hnodup, fun a => ?_⟩
      rw [hmem, List.map_append, List.mem_append, List.map_singleton, List.mem_singleton]
      refine ⟨.inl, ?_⟩
      rintro (ha | rfl)
      · exact ha
      · exact (hmem _).mp h
    next h =>
      rw [List.map_append, List.map_singleton]
      refine ⟨hnodup.append (List.nodup_singleton _) (List.disjoint_singleton.mpr h), fun a => ?_⟩
      rw [List.mem_append, List.map_append, List.mem_append, hmem, List.map_singleton]

theorem length_firsts (rows : List (List Value)) :
    (op.firsts rows).length = op.shapeCount rows := by
  have hset : (rows.map op.shape).toFinset = ((op.firsts rows).map op.shape).toFinset := by
    ext a
    rw [List.mem_toFinset, List.mem_toFinset, (shapes_firsts rows).2]
  rw [shapeCount, hset, List.toFinset_card_of_nodup (shapes_firsts rows).1, List.length_map]

theorem mem_of_mem_firsts {rows : List (List Value)} {u : List Value} (h : u ∈ op.firsts rows) :
    u ∈ rows := by
  induction rows using List.reverseRecOn with
  | nil => exact h
  | append_singleton rows v ih =>
    rw [firsts_concat] at h
    rw [List.mem_append]
    split at h
    next => exact .inl (ih h)
    next =>
      rcases List.mem_append.mp h with h | h
      · exact .inl (ih h)
      · exact .inr h

/-- A row of a new shape is one more, and comes last. -/
theorem shapeCount_concat_of_new {rows : List (List Value)} {v : List Value}
    (h : op.shape v ∉ rows.map op.shape) :
    op.firsts (rows ++ [v]) = op.firsts rows ++ [v] ∧
      op.shapeCount (rows ++ [v]) = op.shapeCount rows + 1 := by
  have hfirsts : op.firsts (rows ++ [v]) = op.firsts rows ++ [v] := by
    rw [firsts_concat, if_neg fun hmem => h (((shapes_firsts rows).2 _).mp hmem)]
  refine ⟨hfirsts, ?_⟩
  rw [← length_firsts, hfirsts, List.length_append, length_firsts]
  rfl

theorem shapeCount_concat_of_known {rows : List (List Value)} {v : List Value}
    (h : op.shape v ∈ rows.map op.shape) :
    op.firsts (rows ++ [v]) = op.firsts rows ∧
      op.shapeCount (rows ++ [v]) = op.shapeCount rows := by
  have hfirsts : op.firsts (rows ++ [v]) = op.firsts rows := by
    rw [firsts_concat, if_pos (((shapes_firsts rows).2 _).mpr h)]
  exact ⟨hfirsts, by rw [← length_firsts, hfirsts, length_firsts]⟩

theorem shapeCount_perm {rows rows' : List (List Value)} (h : rows.Perm rows') :
    op.shapeCount rows = op.shapeCount rows' := by
  rw [shapeCount, shapeCount, List.toFinset_eq_of_perm _ _ (h.map op.shape)]

theorem shapeCount_le_concat (rows : List (List Value)) (v : List Value) :
    op.shapeCount rows ≤ op.shapeCount (rows ++ [v]) := by
  by_cases hknown : op.shape v ∈ rows.map op.shape
  · exact Nat.le_of_eq (shapeCount_concat_of_known hknown).2.symm
  · rw [(shapeCount_concat_of_new hknown).2]
    exact Nat.le_succ _

end Operation

/-- A rule of which no equal is kept is taken in at the end if there is room, and is one too many
otherwise. -/
theorem RuleCache.record_of_not_covers {limit : Nat} {r : Rule} {c : RuleCache}
    (hc : c ≠ .megamorphic) (hr : c.covers r.guard = false) :
    (c.rules.length < limit →
      (c.record limit r).rules = c.rules ++ [r] ∧ c.record limit r ≠ .megamorphic) ∧
    (limit ≤ c.rules.length → c.record limit r = .megamorphic) := by
  have hne : ¬ c.covers r.guard = true := by
    rw [hr]
    exact Bool.false_ne_true
  cases c with
  | empty =>
    rw [record, if_neg hne, rules_empty, List.length_nil]
    split
    next h => exact ⟨fun hlt => absurd hlt (by omega), fun _ => rfl⟩
    next h => exact ⟨fun _ => ⟨rfl, fun hm => nomatch hm⟩, fun hle => absurd hle (by omega)⟩
  | monomorphic first =>
    rw [record, if_neg hne, rules_monomorphic, List.length_singleton]
    split
    next h => exact ⟨fun hlt => absurd hlt (by omega), fun _ => rfl⟩
    next h => exact ⟨fun _ => ⟨rfl, fun hm => nomatch hm⟩, fun hle => absurd hle (by omega)⟩
  | polymorphic rs =>
    rw [record, if_neg hne, rules_polymorphic]
    split
    next h => exact ⟨fun _ => ⟨rfl, fun hm => nomatch hm⟩, fun hle => absurd hle (by omega)⟩
    next h => exact ⟨fun hlt => absurd hlt h, fun _ => rfl⟩
  | megamorphic => exact absurd rfl hc

/-- What an execution does to a call site that nobody touches meanwhile, where a fresh bind would
give the rule `r`. -/
def Site.use (r : Rule) (operands : List Value) (s : Site) : Site :=
  match s.cache.find? operands with
  | some _ => { s with hits := s.hits + 1 }
  | none => { s with misses := s.misses + 1 }.keep r operands

theorem Site.use_same (r : Rule) (operands : List Value) (s : Site) :
    (s.use r operands).binder = s.binder ∧ (s.use r operands).fallback = s.fallback ∧
      (s.use r operands).maxRules = s.maxRules := by
  unfold Site.use
  split
  next => exact ⟨rfl, rfl, rfl⟩
  next =>
    unfold Site.keep
    split
    next => exact ⟨rfl, rfl, rfl⟩
    next => exact ⟨rfl, rfl, rfl⟩

/-- What rows of operands have made of a new call site. -/
structure Resolved (op : Operation) (rows : List (List Value)) (t : Site) : Prop where
  counts : t.hits + t.misses = rows.length
  within : op.shapeCount rows ≤ t.maxRules → t.misses = op.shapeCount rows ∧
    t.cache.rules.map Rule.guard = (op.firsts rows).map op.guardOn ∧ t.cache ≠ .megamorphic
  beyond : t.maxRules < op.shapeCount rows → t.cache = .megamorphic

namespace Resolved

variable {op : Operation} {rows : List (List Value)} {t : Site} {v : List Value}

/-- A rule is found for a row just if its shape is known and there is room for all shapes. -/
theorem find?_eq_none_iff (h : Resolved op rows t) (hrows : ∀ u ∈ rows, u.length = op.operandCount)
    (hv : v.length = op.operandCount) :
    t.cache.find? v = none ↔
      op.shape v ∉ rows.map op.shape ∨ t.maxRules < op.shapeCount (rows ++ [v]) := by
  by_cases hroom : op.shapeCount rows ≤ t.maxRules
  · obtain ⟨-, hguards, -⟩ := h.within hroom
    -- there is a guard for each shape, and it holds on no other
    have hfind : t.cache.find? v = none ↔ op.shape v ∉ rows.map op.shape := by
      have happlies : t.cache.find? v = none ↔
          ∀ g ∈ t.cache.rules.map Rule.guard, ¬ g.check v = true := by
        rw [RuleCache.find?, List.find?_eq_none, List.forall_mem_map]
        rfl
      rw [happlies, hguards, List.forall_mem_map, ← (Operation.shapes_firsts rows).2, List.mem_map,
        not_exists]
      refine forall_congr' fun u => ?_
      rw [not_and]
      refine imp_congr_right fun hu => not_congr ?_
      have hun := hrows u (Operation.mem_of_mem_firsts hu)
      exact Operation.check_guardOn (List.ne_nil_of_length_pos (hun ▸ op.operandCount_pos))
        (hun.trans hv.symm)
    rw [hfind]
    refine ⟨.inl, ?_⟩
    rintro (hnew | hlt)
    · exact hnew
    · intro hknown
      rw [(Operation.shapeCount_concat_of_known hknown).2] at hlt
      omega
  · have hmega := h.beyond (Nat.lt_of_not_le hroom)
    refine iff_of_true ?_ (.inr ?_)
    · rw [hmega]
      rfl
    · have hmore := @Operation.shapeCount_le_concat op rows v
      omega

/-- One more use of the call site. -/
theorem use (h : Resolved op rows t) (hrows : ∀ u ∈ rows, u.length = op.operandCount)
    (hv : v.length = op.operandCount) {r : Rule} (hr : r.guard = op.guardOn v) :
    Resolved op (rows ++ [v]) (t.use r v) := by
  have hnone := h.find?_eq_none_iff hrows hv
  have hcounts := h.counts
  have hlength : (rows ++ [v]).length = rows.length + 1 := by
    rw [List.length_append, List.length_singleton]
  unfold Site.use
  cases hfound : t.cache.find? v with
  | some q =>
    -- a hit, so the shape is known
    rw [hfound] at hnone
    have hknown : op.shape v ∈ rows.map op.shape := by
      by_contra hnew
      exact Option.some_ne_none q (hnone.mpr (.inl hnew))
    obtain ⟨hfirsts, hcount⟩ := Operation.shapeCount_concat_of_known hknown
    refine ⟨?_, ?_, ?_⟩
    · rw [hlength]
      dsimp only
      omega
    · rw [hfirsts, hcount]
      exact h.within
    · rw [hcount]
      exact h.beyond
  | none =>
    have hself : r.applies v = true := by
      rw [Rule.applies, hr]
      exact Operation.check_guardOn_self (List.ne_nil_of_length_pos (hv ▸ op.operandCount_pos))
    dsimp only
    rw [Site.keep, if_pos hself]
    by_cases hroom : op.shapeCount rows ≤ t.maxRules
    · obtain ⟨hmisses, hguards, hmega⟩ := h.within hroom
      have hnew : op.shape v ∉ rows.map op.shape := by
        rcases hnone.mp hfound with hnew | hlt
        · exact hnew
        · intro hknown
          rw [(Operation.shapeCount_concat_of_known hknown).2] at hlt
          omega
      obtain ⟨hfirsts, hcount⟩ := Operation.shapeCount_concat_of_new hnew
      -- an equal guard would hold on the row, and its rule would have been found
      have hcovers : t.cache.covers r.guard = false := by
        rw [← Bool.not_eq_true, RuleCache.covers, List.any_eq_true]
        rintro ⟨q, hq, hguard⟩
        refine List.find?_eq_none.mp hfound q hq ?_
        rw [Rule.applies, Guard.check_eq_of_beq hguard]
        exact hself
      have hsize : t.cache.rules.length = op.shapeCount rows := by
        rw [← Operation.length_firsts, ← List.length_map (f := op.guardOn), ← hguards,
          List.length_map]
      obtain ⟨htaken, htooMany⟩ :=
        @RuleCache.record_of_not_covers t.maxRules r t.cache hmega hcovers
      refine ⟨?_, fun hwithin => ?_, fun hbeyond => ?_⟩
      · rw [hlength]
        dsimp only
        omega
      · dsimp only at hwithin ⊢
        obtain ⟨hrules, hstill⟩ := htaken (by omega)
        refine ⟨by omega, ?_, hstill⟩
        rw [hrules, List.map_append, hguards, hfirsts, List.map_append, List.map_singleton,
          List.map_singleton, hr]
      · exact htooMany (by dsimp only at hbeyond; omega)
    · -- the call site has given up, and misses whatever the shape is
      have hmega := h.beyond (Nat.lt_of_not_le hroom)
      have hmore := @Operation.shapeCount_le_concat op rows v
      refine ⟨?_, fun hwithin => ?_, fun _ => ?_⟩
      · rw [hlength]
        dsimp only
        omega
      · dsimp only at hwithin
        omega
      · dsimp only
        rw [hmega, RuleCache.record_megamorphic]

/-- The call site gives up at the first shape for which there is no room. -/
theorem megamorphic_iff (h : Resolved op rows t) :
    t.cache = .megamorphic ↔ t.maxRules < op.shapeCount rows := by
  constructor
  · intro hmega
    by_contra hroom
    exact (h.within (Nat.le_of_not_lt hroom)).2.2 hmega
  · exact h.beyond

/-- A use is a miss just if the shape is new or there is no room for all shapes. -/
theorem misses_use (h : Resolved op rows t) (hrows : ∀ u ∈ rows, u.length = op.operandCount)
    (hv : v.length = op.operandCount) (r : Rule) :
    (t.use r v).misses = t.misses +
      if op.shape v ∉ rows.map op.shape ∨ t.maxRules < op.shapeCount (rows ++ [v]) then 1
      else 0 := by
  have hnone := h.find?_eq_none_iff hrows hv
  unfold Site.use
  cases hfound : t.cache.find? v with
  | some q =>
    rw [if_neg fun hmiss => Option.some_ne_none q (hfound.symm.trans (hnone.mpr hmiss))]
    rfl
  | none =>
    rw [if_pos (hnone.mp hfound)]
    dsimp only
    unfold Site.keep
    split
    next => rfl
    next => rfl

/-- With room for all shapes, rows in another order are counted alike and leave equal guards. -/
theorem same_of_perm {rows' : List (List Value)} {t' : Site} (h : Resolved op rows t)
    (h' : Resolved op rows' t') (hlimit : t'.maxRules = t.maxRules) (hperm : rows.Perm rows')
    (hroom : op.shapeCount rows ≤ t.maxRules) :
    t'.hits = t.hits ∧ t'.misses = t.misses ∧ t'.cache.rules.length = t.cache.rules.length ∧
      ∀ r ∈ t.cache.rules, ∃ r' ∈ t'.cache.rules, (r.guard == r'.guard) = true := by
  have hcount : op.shapeCount rows = op.shapeCount rows' := Operation.shapeCount_perm hperm
  have hlength := hperm.length_eq
  have hcounts := h.counts
  have hcounts' := h'.counts
  obtain ⟨hmisses, hguards, -⟩ := h.within hroom
  obtain ⟨hmisses', hguards', -⟩ := h'.within (by omega)
  have hsize := congrArg List.length hguards
  have hsize' := congrArg List.length hguards'
  rw [List.length_map, List.length_map, Operation.length_firsts] at hsize hsize'
  refine ⟨by omega, by omega, by omega, fun r hr => ?_⟩
  -- the rule is for the first row of its shape, and so is one of the other rules
  obtain ⟨u, hu, hguard⟩ := List.mem_map.mp (hguards ▸ List.mem_map_of_mem hr)
  have hshape : op.shape u ∈ rows'.map op.shape :=
    (hperm.map op.shape).mem_iff.mp
      (((Operation.shapes_firsts rows).2 _).mp (List.mem_map_of_mem hu))
  obtain ⟨w, hw, hsame⟩ := List.mem_map.mp (((Operation.shapes_firsts rows').2 _).mpr hshape)
  obtain ⟨r', hr', hguard'⟩ := List.mem_map.mp (hguards' ▸ List.mem_map_of_mem hw)
  exact ⟨r', hr', by rw [← hguard, hguard']; exact Operation.guardOn_beq_of_shape hsame.symm⟩

end Resolved

namespace Engine

variable {σ : Type}

/-- A change that leaves a call site alone, and the operation of its binder. -/
structure Spares (index : Nat) (b : BinderRef) (e t : Engine σ) : Prop where
  site : t.sites[index]? = e.sites[index]?
  operation : (t.backdrop b).map (·.operation) = (e.backdrop b).map (·.operation)

namespace Spares

variable {index : Nat} {b : BinderRef} {e t u : Engine σ}

theorem refl (e : Engine σ) : Spares index b e e :=
  ⟨rfl, rfl⟩

theorem trans (h : Spares index b e t) (k : Spares index b t u) : Spares index b e u :=
  ⟨k.site.trans h.site, k.operation.trans h.operation⟩

theorem of_aside (h : Aside index b e t) : Spares index b e t :=
  ⟨h.site, by rw [h.backdrop]⟩

end Spares

/-- Call site `index` is `t`, which has no rule to fall back on and performs `op`. -/
structure Serves (index : Nat) (op : Operation) (t : Site) (e : Engine σ) : Prop where
  site : e.sites[index]? = some t
  fallback : t.fallback = none
  operation : (e.backdrop t.binder).map (·.operation) = some op

variable {host : Host σ} {index : Nat} {op : Operation} {t : Site} {e : Engine σ} {v : List Value}

theorem Serves.spares (h : Serves index op t e) {u : Engine σ} (hu : Spares index t.binder e u) :
    Serves index op t u :=
  ⟨hu.site.trans h.site, h.fallback, hu.operation.trans h.operation⟩

/-- Binding answers with a rule for the shape of the operands, whatever the resolver says. -/
theorem Serves.exec_bind (h : Serves index op t e)
    (hr : (host.resolver t.binder.dispatcher).Answers (Spares index t.binder))
    (hset : op.kind ≠ .setMember) (hinvoke : op.kind ≠ .invoke) (hmember : op.kind ≠ .invokeMember)
    (hn : v.length = op.operandCount) :
    ∃ r u, (bind host t.binder (v.map .known) t.fallback).exec e = (.ok (.bound r), u) ∧
      r.guard = op.guardOn v ∧ Spares index t.binder e u := by
  obtain ⟨x, hx, rfl⟩ := Option.map_eq_some_iff.mp h.operation
  obtain ⟨d, binder, hd, hb, rfl⟩ := backdrop_eq_some.mp hx
  dsimp only at *
  obtain ⟨verdict, u, hjudge, hguard, hspares⟩ := Operation.judge_yields
    (s := ⟨host.resolver t.binder.dispatcher, d.types, d.emptyResult⟩) Spares.refl hr hset hinvoke
    hn (fun hkind => absurd hkind hmember) e
  refine ⟨verdict.rule none, { u with
    dispatchers := u.dispatchers.modify t.binder.dispatcher
      (·.modifyTally (binder.creditee t.binder.binder (v.map .known))
        (·.countRule (verdict.rule none))) }, ?_, hguard, ?_⟩
  · rw [h.fallback, exec_bind_of_length_eq hd hb (by rw [List.length_map, hn]),
      exec_bindCounted_of_known hd hb (Operand.pending_known v), hjudge]
  · exact hspares.trans ⟨rfl, by rw [backdrop_modifyTally]⟩

/-- Finding a rule for a row is one use of the call site. -/
theorem Serves.exec_ruleFor (h : Serves index op t e)
    (hr : (host.resolver t.binder.dispatcher).Answers (Spares index t.binder))
    (hset : op.kind ≠ .setMember) (hinvoke : op.kind ≠ .invoke) (hmember : op.kind ≠ .invokeMember)
    (hn : v.length = op.operandCount) :
    ∃ r q u, (ruleFor host index v).exec e = (.ok q, u) ∧ r.guard = op.guardOn v ∧
      Serves index op (t.use r v) u := by
  have hsite : ∀ {r : Rule} {u : Engine σ}, u.sites[index]? = some (t.use r v) →
      (u.backdrop t.binder).map (·.operation) = some op → Serves index op (t.use r v) u := by
    intro r u hu hop
    obtain ⟨hbinder, hfallback, -⟩ := Site.use_same r v t
    exact ⟨hu, hfallback.trans h.fallback, hbinder ▸ hop⟩
  cases hfound : t.cache.find? v with
  | some q =>
    refine ⟨⟨default, op.guardOn v⟩, q, _, exec_ruleFor_of_found h.site hfound, rfl,
      hsite ?_ h.operation⟩
    rw [Array.getElem?_modify, if_pos rfl, h.site, Site.use, hfound]
    rfl
  | none =>
    have hmissed : Serves index op { t with misses := t.misses + 1 } { e with
        sites := e.sites.modify index fun _ => { t with misses := t.misses + 1 } } := by
      refine ⟨?_, h.fallback, h.operation⟩
      rw [Array.getElem?_modify, if_pos rfl, h.site]
      rfl
    obtain ⟨r, u, hbind, hguard, hspares⟩ := hmissed.exec_bind hr hset hinvoke hmember hn
    refine ⟨r, r, { u with sites := u.sites.modify index (·.keep r v) }, ?_, hguard, hsite ?_ ?_⟩
    · dsimp only at hbind
      rw [exec_ruleFor_of_not_found h.site hfound, hbind]
    · rw [Array.getElem?_modify, if_pos rfl, hspares.site, hmissed.site, Site.use, hfound]
      rfl
    · exact hspares.operation.trans h.operation

/-- An execution is one use of the call site. -/
theorem Serves.perform_execute (h : Serves index op t e)
    (hr : (host.resolver t.binder.dispatcher).Answers (Spares index t.binder))
    (hroutine : ∀ i args, Run.Within (Spares index t.binder) (host.routine i args))
    (hset : op.kind ≠ .setMember) (hinvoke : op.kind ≠ .invoke) (hmember : op.kind ≠ .invokeMember)
    (hn : v.length = op.operandCount) :
    ∃ r, r.guard = op.guardOn v ∧
      Serves index op (t.use r v) ((perform host index (.execute v)).exec e).2 := by
  obtain ⟨r, q, u, hfind, hguard, hserves⟩ := h.exec_ruleFor hr hset hinvoke hmember hn
  refine ⟨r, hguard, ?_⟩
  rw [exec_perform_execute, exec_execute, hfind]
  refine hserves.spares ?_
  rw [(Site.use_same r v t).1]
  exact Fragment.evaluate_within Spares.refl Spares.trans
    (call_within hroutine fun values e => Spares.of_aside (Aside.of_pack values e)) v q.fragment u

/-- The call site after executions on rows of operands. -/
def siteAfter (host : Host σ) (index : Nat) (e : Engine σ) (rows : List (List Value)) :
    Option Site :=
  (after host index e (rows.map .execute)).sites[index]?

section Run

variable {s : Site} {x : Backdrop}

/-- Rows of operands use a new call site one after the other. -/
theorem serves_after (h : Unused index s x e) (hhits : s.hits = 0) (hmisses : s.misses = 0)
    (hr : (host.resolver s.binder.dispatcher).Answers (Spares index s.binder))
    (hroutine : ∀ i args, Run.Within (Spares index s.binder) (host.routine i args))
    (hset : x.operation.kind ≠ .setMember) (hinvoke : x.operation.kind ≠ .invoke)
    (hmember : x.operation.kind ≠ .invokeMember) {rows : List (List Value)}
    (hrows : ∀ v ∈ rows, v.length = x.operation.operandCount) :
    ∃ t, Serves index x.operation t (after host index e (rows.map .execute)) ∧
      t.binder = s.binder ∧ t.maxRules = s.maxRules ∧ Resolved x.operation rows t := by
  induction rows using List.reverseRecOn with
  | nil =>
    have hserves : Serves index x.operation s (after host index e []) :=
      ⟨h.site, h.fallback, congrArg (Option.map (·.operation)) h.backdrop⟩
    refine ⟨s, hserves, rfl, rfl, ?_⟩
    refine ⟨by rw [hhits, hmisses]; rfl, fun _ => ⟨hmisses, ?_, ?_⟩, fun hlt => ?_⟩
    · rw [h.cache]
      rfl
    · rw [h.cache]
      exact fun hm => nomatch hm
    · exact absurd hlt (Nat.not_lt_zero _)
  | append_singleton rows v ih =>
    have hfirst : ∀ u ∈ rows, u.length = x.operation.operandCount :=
      fun u hu => hrows u (List.mem_append_left _ hu)
    have hlast : v.length = x.operation.operandCount :=
      hrows v (List.mem_append_right _ (List.mem_singleton_self v))
    obtain ⟨t, hserves, hbinder, hlimit, hresolved⟩ := ih hfirst
    obtain ⟨r, hguard, hused⟩ := hserves.perform_execute (hbinder ▸ hr) (hbinder ▸ hroutine) hset
      hinvoke hmember hlast
    obtain ⟨hb, -, hm⟩ := Site.use_same r v t
    refine ⟨t.use r v, ?_, hb.trans hbinder, hm.trans hlimit, hresolved.use hfirst hlast hguard⟩
    rw [List.map_append, after, List.foldl_append]
    exact hused

/-- A call site that nobody touches in between resolves each shape once, as long as it has room for
a rule for each. It gives up at the first row that is of one shape too many, and from then on
resolves all rows. -/
theorem shapes_resolved_once (h : Unused index s x e) (hhits : s.hits = 0) (hmisses : s.misses = 0)
    (hr : (host.resolver s.binder.dispatcher).Answers (Spares index s.binder))
    (hroutine : ∀ i args, Run.Within (Spares index s.binder) (host.routine i args))
    (hset : x.operation.kind ≠ .setMember) (hinvoke : x.operation.kind ≠ .invoke)
    (hmember : x.operation.kind ≠ .invokeMember) {rows : List (List Value)}
    (hrows : ∀ v ∈ rows, v.length = x.operation.operandCount) :
    ∃ t, siteAfter host index e rows = some t ∧ t.hits + t.misses = rows.length ∧
      (x.operation.shapeCount rows ≤ s.maxRules →
        t.misses = x.operation.shapeCount rows ∧
        t.hits = rows.length - x.operation.shapeCount rows ∧
        t.cache.rules.map Rule.guard = (x.operation.firsts rows).map x.operation.guardOn) ∧
      (t.cache = .megamorphic ↔ s.maxRules < x.operation.shapeCount rows) ∧
      (∀ v, v.length = x.operation.operandCount →
        ∃ t', siteAfter host index e (rows ++ [v]) = some t' ∧ t'.misses = t.misses +
          if x.operation.shape v ∉ rows.map x.operation.shape ∨
            s.maxRules < x.operation.shapeCount (rows ++ [v]) then 1 else 0) ∧
      ∀ rows', rows.Perm rows' → x.operation.shapeCount rows ≤ s.maxRules →
        ∃ t', siteAfter host index e rows' = some t' ∧ t'.hits = t.hits ∧ t'.misses = t.misses ∧
          t'.cache.rules.length = t.cache.rules.length ∧
          ∀ r ∈ t.cache.rules, ∃ r' ∈ t'.cache.rules, (r.guard == r'.guard) = true := by
  obtain ⟨t, hserves, hbinder, hlimit, hresolved⟩ :=
    serves_after h hhits hmisses hr hroutine hset hinvoke hmember hrows
  have hcounts := hresolved.counts
  refine ⟨t, hserves.site, hcounts, fun hroom => ?_, ?_, fun v hv => ?_,
    fun rows' hperm hroom => ?_⟩
  · obtain ⟨hcounted, hguards, -⟩ := hresolved.within (hlimit ▸ hroom)
    exact ⟨hcounted, by omega, hguards⟩
  · rw [hresolved.megamorphic_iff, hlimit]
  · obtain ⟨r, -, hused⟩ := hserves.perform_execute (hbinder ▸ hr) (hbinder ▸ hroutine) hset hinvoke
      hmember hv
    refine ⟨t.use r v, ?_, hlimit ▸ hresolved.misses_use hrows hv r⟩
    rw [siteAfter, List.map_append, after, List.foldl_append]
    exact hused.site
  · have hrows' : ∀ v ∈ rows', v.length = x.operation.operandCount :=
      fun v hv => hrows v (hperm.mem_iff.mpr hv)
    obtain ⟨t', hserves', -, hlimit', hresolved'⟩ :=
      serves_after h hhits hmisses hr hroutine hset hinvoke hmember hrows'
    exact ⟨t', hserves'.site, hresolved.same_of_perm hresolved' (hlimit'.trans hlimit.symm) hperm
      (hlimit ▸ hroom)⟩

end Run

/-- Integers are added twice and once to nil, at a call site with room for two rules. -/
theorem shapes_resolved_once_adding :
    ∃ t, siteAfter smallHost 0 (smallEngine (.ofOperator .add false) 2)
        [[.integer 1, .integer 2], [.nil, .integer 1], [.integer 3, .integer 4]] = some t ∧
      t.misses = 2 ∧ t.hits = 1 ∧ t.cache ≠ .megamorphic := by
  have hcount : (Operation.ofOperator .add false).shapeCount
      [[.integer 1, .integer 2], [.nil, .integer 1], [.integer 3, .integer 4]] = 2 := by decide
  have hrows : ∀ v ∈ ([[.integer 1, .integer 2], [.nil, .integer 1], [.integer 3, .integer 4]] :
      List (List Value)), v.length = (Operation.ofOperator .add false).operandCount := by
    intro v hv
    simp only [List.mem_cons, List.not_mem_nil, or_false] at hv
    rcases hv with rfl | rfl | rfl <;> rfl
  have hr : (smallHost.resolver 0).Answers (Spares 0 ⟨0, 0⟩) :=
    smallResolver_byView.answers Spares.refl
  have hroutine : ∀ i args, Run.Within (Spares 0 ⟨0, 0⟩) (smallHost.routine i args) :=
    fun _ _ e => Spares.refl e
  obtain ⟨t, hafter, -, hwithin, hmega, -, -⟩ := shapes_resolved_once
    (unused_smallEngine (.ofOperator .add false) 2) rfl rfl hr hroutine (by decide) (by decide)
    (by decide) hrows
  dsimp only [smallBackdrop, smallSite] at hwithin hmega
  rw [hcount] at hwithin hmega
  obtain ⟨hmisses, hhits, -⟩ := hwithin (Nat.le_refl 2)
  exact ⟨t, hafter, hmisses, hhits, fun h => absurd (hmega.mp h) (Nat.lt_irrefl 2)⟩

end Engine

end Dispatch
