import Mathlib.Data.List.Induction
import Dispatch.Site.Basic

/-!
# The history of a call site

Executions of one call site may be nested: the host is asked while an execution is under way, and
may execute and reset the same call site before it answers. Whatever the nesting is, what happens to
the call site is a row of small events: an execution starts and finds a rule or none, a rule is
bound for an execution that found none, all rules are forgotten. `Site.through` is the call site
after such a history.

One event preserves what all call sites have in common (`Consistent.happen`), and so it holds after
every history (`New.consistent`). Until rules are forgotten a call site only moves forward through
its classifications (`rank_le_through`).

In the runtime: `CallSite.execute`, `record` and `reset`, on one `SiteState`.
-/

namespace Dispatch

/-- How far a call site has come. -/
def Classification.rank : Classification → Nat
  | uninitialized => 0
  | monomorphic => 1
  | bimorphic => 2
  | polymorphic => 3
  | megamorphic => 4

theorem Classification.eq_megamorphic_of_rank {c : Classification} (h : megamorphic.rank ≤ c.rank) :
    c = megamorphic := by
  cases c with
  | megamorphic => rfl
  | _ => exact absurd h (by decide)

namespace RuleCache

theorem rules_of_megamorphic {c : RuleCache} (h : c.classification = .megamorphic) :
    c.rules = [] := by
  cases c with
  | empty => rfl
  | monomorphic r => cases h
  | polymorphic rs =>
    rw [classification] at h
    split at h <;> cases h
  | megamorphic => rfl

/-- The rules of a cache are within its limit, no two have the same guard, and a list of rules has
more than one. -/
structure Ordered (limit : Nat) (c : RuleCache) : Prop where
  within : c.rules.length ≤ limit
  distinct : c.rules.Pairwise fun r r' => (r.guard == r'.guard) = false
  several : ∀ rs, c = polymorphic rs → 2 ≤ rs.length

theorem ordered_empty (limit : Nat) : Ordered limit empty :=
  ⟨Nat.zero_le _, .nil, nofun⟩

theorem Ordered.record {limit : Nat} {c : RuleCache} (h : Ordered limit c) (r : Rule) :
    Ordered limit (c.record limit r) := by
  have hlength := length_rules_record h.within r
  revert hlength
  unfold RuleCache.record
  split
  next => exact fun _ => h
  next hcovers =>
    have hnew : ∀ q ∈ c.rules, (q.guard == r.guard) = false := fun q hq =>
      Bool.eq_false_iff.mpr fun hguard => hcovers (List.any_eq_true.mpr ⟨q, hq, hguard⟩)
    cases c with
    | empty =>
      dsimp only
      split
      next => exact fun hlength => ⟨hlength, .nil, nofun⟩
      next => exact fun hlength => ⟨hlength, List.pairwise_singleton _ _, nofun⟩
    | monomorphic first =>
      dsimp only
      split
      next => exact fun hlength => ⟨hlength, .nil, nofun⟩
      next =>
        intro hlength
        refine ⟨hlength, List.pairwise_pair.mpr (hnew first (List.mem_singleton_self _)), ?_⟩
        rintro rs ⟨⟩
        exact Nat.le_refl 2
    | polymorphic rs =>
      dsimp only
      split
      next =>
        intro hlength
        refine ⟨hlength, List.pairwise_append.mpr ⟨h.distinct, List.pairwise_singleton _ _, ?_⟩, ?_⟩
        · intro q hq q' hq'
          rw [List.mem_singleton.mp hq']
          exact hnew q hq
        · rintro rs' ⟨⟩
          have hseveral := h.several rs rfl
          rw [List.length_append]
          omega
      next => exact fun hlength => ⟨hlength, .nil, nofun⟩
    | megamorphic => exact fun _ => h

/-- Recording a rule moves forward. -/
theorem rank_le_record (limit : Nat) (r : Rule) (c : RuleCache) :
    c.classification.rank ≤ (c.record limit r).classification.rank := by
  have hmega : c.classification.rank ≤ megamorphic.classification.rank := by
    cases c.classification <;> decide
  unfold record
  split
  next => exact Nat.le_refl _
  next =>
    cases c with
    | empty => exact Nat.zero_le _
    | monomorphic first =>
      dsimp only
      split
      next => exact hmega
      next => exact Nat.le_succ 1
    | polymorphic rs =>
      dsimp only
      split
      next =>
        rw [classification, classification, List.length_append, List.length_singleton]
        split
        next => split <;> decide
        next => exact Nat.le_of_eq (congrArg Classification.rank (if_neg (by omega)).symm)
      next => exact hmega
    | megamorphic => exact Nat.le_refl _

end RuleCache

namespace Site

/-- What can happen to a call site. -/
inductive Event where
  /-- An execution starts and finds a rule. -/
  | hit (operands : List Value) (rule : Rule)
  /-- An execution starts and finds no rule. -/
  | miss (operands : List Value)
  /-- A rule is bound for an execution that found none. -/
  | bound (operands : List Value) (rule : Rule)
  | reset

/-- The call site after an event. -/
def happen (s : Site) : Event → Site
  | .hit _ _ => { s with hits := s.hits + 1 }
  | .miss _ => { s with misses := s.misses + 1 }
  | .bound operands r => s.keep r operands
  | .reset => s.reset

/-- The call site after a history. -/
def through (s : Site) (es : List Event) : Site :=
  es.foldl happen s

/-- How an execution starts. -/
def start (s : Site) (operands : List Value) : Event :=
  match s.cache.find? operands with
  | some r => .hit operands r
  | none => .miss operands

/-- The operands of the execution that starts with an event. -/
def Event.started? : Event → Option (List Value)
  | hit operands _ | miss operands => some operands
  | bound _ _ | reset => none

/-- The operands of all executions that started, in order. -/
def started (es : List Event) : List (List Value) :=
  es.filterMap Event.started?

/-- The rules bound up to an event, each with the operands of its execution. -/
def Event.collect (seen : List (List Value × Rule)) : Event → List (List Value × Rule)
  | bound operands r => seen ++ [(operands, r)]
  | reset => []
  | hit _ _ | miss _ => seen

/-- The rules bound since all rules were forgotten, each with the operands of its execution. -/
def boundSince (es : List Event) : List (List Value × Rule) :=
  es.foldl Event.collect []

/-- An event that can follow a history of a call site, where `B` says which rules may be bound for
which operands. -/
def Event.Follows (B : List Value → Rule → Prop) (es : List Event) (s : Site) : Event → Prop
  | hit operands r => s.cache.find? operands = some r
  | miss operands => s.cache.find? operands = none
  | bound operands r => .miss operands ∈ es ∧ B operands r
  | reset => True

/-- A history that a call site can have. -/
inductive Lived (B : List Value → Rule → Prop) (s : Site) : List Event → Prop
  | new : Lived B s []
  | next {es : List Event} {event : Event} :
    Lived B s es → event.Follows B es (s.through es) → Lived B s (es ++ [event])

theorem through_append (s : Site) (es es' : List Event) :
    s.through (es ++ es') = (s.through es).through es' :=
  List.foldl_append

theorem through_concat (s : Site) (es : List Event) (event : Event) :
    s.through (es ++ [event]) = (s.through es).happen event :=
  through_append s es [event]

/-- No event touches what a call site was made with. -/
theorem through_same (s : Site) (es : List Event) :
    (s.through es).binder = s.binder ∧ (s.through es).kind = s.kind ∧
      (s.through es).fallback = s.fallback ∧ (s.through es).maxRules = s.maxRules := by
  have hstep : ∀ (t : Site) (event : Event), (t.happen event).binder = t.binder ∧
      (t.happen event).kind = t.kind ∧ (t.happen event).fallback = t.fallback ∧
        (t.happen event).maxRules = t.maxRules := by
    intro t event
    cases event with
    | bound operands r =>
      rw [happen, keep]
      split <;> exact ⟨rfl, rfl, rfl, rfl⟩
    | _ => exact ⟨rfl, rfl, rfl, rfl⟩
  induction es using List.reverseRecOn with
  | nil => exact ⟨rfl, rfl, rfl, rfl⟩
  | append_singleton es event ih =>
    obtain ⟨hbinder, hkind, hfallback, hlimit⟩ := hstep (s.through es) event
    rw [through_concat, hbinder, hkind, hfallback, hlimit]
    exact ih

theorem started_append (es es' : List Event) : started (es ++ es') = started es ++ started es' :=
  List.filterMap_append

theorem boundSince_concat (es : List Event) (event : Event) :
    boundSince (es ++ [event]) = event.collect (boundSince es) :=
  List.foldl_append

theorem started?_start (s : Site) (operands : List Value) :
    (s.start operands).started? = some operands := by
  unfold start
  split <;> rfl

/-- A rule that a history has bound for operands is one that may be bound for them. -/
theorem Lived.bound_of_mem {B : List Value → Rule → Prop} {s : Site} {es : List Event}
    (h : Lived B s es) {operands : List Value} {r : Rule} (hr : (operands, r) ∈ boundSince es) :
    B operands r := by
  induction h with
  | new => exact absurd hr List.not_mem_nil
  | @next es event hlived hfollows ih =>
    rw [boundSince_concat] at hr
    cases event with
    | bound v q =>
      rcases List.mem_append.mp hr with hr | hr
      · exact ih hr
      · cases List.mem_singleton.mp hr
        exact hfollows.2
    | reset => exact absurd hr List.not_mem_nil
    | hit v q => exact ih hr
    | miss v => exact ih hr

/-- A call site that was not used yet. -/
structure New (s : Site) : Prop where
  cache : s.cache = .empty
  hits : s.hits = 0
  misses : s.misses = 0

/-- What a history makes of a new call site. -/
structure Consistent (es : List Event) (t : Site) : Prop where
  counts : t.hits + t.misses = (started es).length
  ordered : t.cache.Ordered t.maxRules
  /-- The rules that are kept were bound one after the other, and each holds on the operands that it
  was bound for. -/
  kept : ∃ kept : List (List Value × Rule), kept.Sublist (boundSince es) ∧
    t.cache.rules = kept.map Prod.snd ∧ ∀ p ∈ kept, p.2.applies p.1 = true

variable {s t : Site} {es : List Event}

theorem consistent_new (h : s.New) : Consistent [] s where
  counts := by
    rw [h.hits, h.misses]
    rfl
  ordered := by
    rw [h.cache]
    exact RuleCache.ordered_empty _
  kept := ⟨[], .slnil, by rw [h.cache]; rfl, nofun⟩

/-- Where a rule was bound, the call site keeps it only if it holds on its own operands. -/
theorem Consistent.keep (h : Consistent es t) (operands : List Value) (r : Rule) :
    Consistent (es ++ [.bound operands r]) (t.keep r operands) := by
  obtain ⟨kept, hsub, hrules, happlies⟩ := h.kept
  have hbound : boundSince (es ++ [.bound operands r]) = boundSince es ++ [(operands, r)] :=
    boundSince_concat es _
  have hearlier : kept.Sublist (boundSince (es ++ [.bound operands r])) :=
    hbound ▸ hsub.trans (List.sublist_append_left _ _)
  have hcounts : t.hits + t.misses = (started (es ++ [.bound operands r])).length := by
    rw [started_append, List.length_append]
    exact h.counts
  unfold Site.keep
  split
  next hself =>
    refine { h with counts := hcounts, ordered := h.ordered.record r, kept := ?_ }
    -- the cache is as before, or has one more rule, or has given up
    rcases RuleCache.record_cases t.maxRules r t.cache with hsame | hmore | hmega
    · exact ⟨kept, hearlier, by rw [hsame, hrules], happlies⟩
    · refine ⟨kept ++ [(operands, r)], hbound ▸ hsub.append (List.Sublist.refl _), ?_, ?_⟩
      · rw [hmore, hrules, List.map_append, List.map_singleton]
      · intro p hp
        rcases List.mem_append.mp hp with hp | hp
        · exact happlies p hp
        · rw [List.mem_singleton.mp hp]
          exact hself
    · exact ⟨[], List.nil_sublist _, by rw [hmega]; rfl, nofun⟩
  next => exact { h with counts := hcounts, kept := ⟨kept, hearlier, hrules, happlies⟩ }

/-- After one more event the call site is still what its history makes of it. -/
theorem Consistent.happen (h : Consistent es t) (event : Event) :
    Consistent (es ++ [event]) (t.happen event) := by
  have hcount := h.counts
  have hstarted := started_append es [event]
  have hbound := boundSince_concat es event
  cases event with
  | hit operands r =>
    refine { h with counts := ?_, kept := hbound ▸ h.kept }
    rw [hstarted, List.length_append]
    show t.hits + 1 + t.misses = (started es).length + 1
    omega
  | miss operands =>
    refine { h with counts := ?_, kept := hbound ▸ h.kept }
    rw [hstarted, List.length_append]
    show t.hits + (t.misses + 1) = (started es).length + 1
    omega
  | bound operands r => exact h.keep operands r
  | reset =>
    refine ⟨?_, RuleCache.ordered_empty _, [], List.nil_sublist _, rfl, nofun⟩
    rw [hstarted, List.length_append]
    exact hcount

/-- A new call site is, after every history, what the history makes of it. -/
theorem New.consistent (h : s.New) (es : List Event) : Consistent es (s.through es) := by
  induction es using List.reverseRecOn with
  | nil => exact consistent_new h
  | append_singleton es event ih =>
    rw [through_concat]
    exact ih.happen event

/-- One event other than a reset moves forward. -/
theorem rank_le_happen (t : Site) {event : Event} (h : event ≠ .reset) :
    t.classification.rank ≤ (t.happen event).classification.rank := by
  cases event with
  | hit operands r => exact Nat.le_refl _
  | miss operands => exact Nat.le_refl _
  | bound operands r =>
    show _ ≤ (t.keep r operands).classification.rank
    unfold keep
    split
    next => exact RuleCache.rank_le_record _ _ _
    next => exact Nat.le_refl _
  | reset => exact absurd rfl h

/-- Until rules are forgotten a call site only moves forward. -/
theorem rank_le_through (t : Site) {es : List Event} (h : .reset ∉ es) :
    t.classification.rank ≤ (t.through es).classification.rank := by
  induction es using List.reverseRecOn with
  | nil => exact Nat.le_refl _
  | append_singleton es event ih =>
    rw [List.mem_append, List.mem_singleton, not_or] at h
    rw [through_concat]
    exact Nat.le_trans (ih h.1) (rank_le_happen _ fun hreset => h.2 hreset.symm)

/-- A call site that has come the whole way has given up, and keeps no rule. -/
theorem megamorphic_of_rank {t : Site}
    (h : Classification.megamorphic.rank ≤ t.classification.rank) :
    t.classification = .megamorphic ∧ t.ruleCount = 0 := by
  have hmega := Classification.eq_megamorphic_of_rank h
  exact ⟨hmega, by rw [ruleCount, RuleCache.rules_of_megamorphic hmega, List.length_nil]⟩

end Site

end Dispatch
