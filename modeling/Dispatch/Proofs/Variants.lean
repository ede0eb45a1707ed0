import Mathlib.Data.List.Induction
import Dispatch.Binding.Binder

/-!
# What a tally remembers of many answers

A tally counts answers one by one, and remembers the guard of a rule if it is new and there is room.
Counting many answers comes to the same as looking at all of them at once: the guards that are
remembered are those of the rules without repetitions, cut off at the limit (`post_spec`). That the
number of different guards is well defined is due to the comparison of guards, which is an
equivalence: the guards without repetitions are all different, and no more of the guards are
(`eraseDups_spec`).

In the runtime: `BinderStats.bound` and `guard_variants`.
-/

namespace Dispatch

section Distinct

variable {α : Type} [BEq α]

/-- One more element is left out if it is there already. -/
theorem eraseDups_concat (xs : List α) (x : α) :
    (xs ++ [x]).eraseDups =
      if xs.eraseDups.contains x then xs.eraseDups else xs.eraseDups ++ [x] := by
  have hloop : ∀ seen : List α, List.eraseDupsBy.loop (· == ·) (xs ++ [x]) seen =
      if (List.eraseDupsBy.loop (· == ·) xs seen).contains x
      then List.eraseDupsBy.loop (· == ·) xs seen
      else List.eraseDupsBy.loop (· == ·) xs seen ++ [x] := by
    induction xs with
    | nil =>
      intro seen
      simp only [List.nil_append, List.eraseDupsBy.loop, List.contains_reverse,
        ← List.contains_eq_any_beq]
      cases seen.contains x <;> simp
    | cons y ys ih =>
      intro seen
      have hstep : ∀ zs : List α, List.eraseDupsBy.loop (· == ·) (y :: zs) seen =
          List.eraseDupsBy.loop (· == ·) zs (if seen.any (y == ·) then seen else y :: seen) := by
        intro zs
        rw [List.eraseDupsBy.loop]
        split <;> simp [*]
      rw [List.cons_append, hstep, hstep]
      exact ih _
  exact hloop []

theorem eraseDups_sublist (xs : List α) : xs.eraseDups.Sublist xs := by
  induction xs using List.reverseRecOn with
  | nil => exact .slnil
  | append_singleton xs x ih =>
    rw [eraseDups_concat]
    split
    next => exact ih.trans (List.sublist_append_left _ _)
    next => exact ih.append (.refl _)

variable [EquivBEq α]

theorem contains_eraseDups {xs : List α} {x : α} (h : x ∈ xs) : xs.eraseDups.contains x = true := by
  induction xs using List.reverseRecOn with
  | nil => cases h
  | append_singleton xs y ih =>
    rw [eraseDups_concat]
    rcases List.mem_append.mp h with hold | hnew
    · split
      next => exact ih hold
      next => rw [List.contains_append, ih hold, Bool.true_or]
    · rw [List.mem_singleton.mp hnew]
      split
      next hseen => exact hseen
      next => simp

theorem pairwise_eraseDups (xs : List α) :
    xs.eraseDups.Pairwise fun x y => (x == y) = false := by
  induction xs using List.reverseRecOn with
  | nil => exact .nil
  | append_singleton xs x ih =>
    rw [eraseDups_concat]
    split
    next => exact ih
    next hnew =>
      refine List.pairwise_append.mpr ⟨ih, List.pairwise_singleton _ _, fun y hy z hz => ?_⟩
      rw [List.mem_singleton.mp hz, Bool.eq_false_iff]
      exact fun hyx => hnew (List.contains_iff_exists_mem_beq.mpr ⟨y, hy, BEq.symm hyx⟩)

/-- Different elements need as many others to be equal to. -/
theorem length_le_of_pairwise {xs ys : List α} (hall : ∀ x ∈ xs, ys.contains x = true)
    (hdifferent : xs.Pairwise fun x y => (x == y) = false) : xs.length ≤ ys.length := by
  induction xs generalizing ys with
  | nil => exact Nat.zero_le _
  | cons x xs ih =>
    obtain ⟨hx, hxs⟩ := List.pairwise_cons.mp hdifferent
    obtain ⟨y, hy, hxy⟩ := List.contains_iff_exists_mem_beq.mp (hall x List.mem_cons_self)
    -- what is equal to `x` is of no use for the others
    have hrest : ∀ x' ∈ xs, (ys.eraseP (x == ·)).contains x' = true := by
      intro x' hx'
      obtain ⟨y', hy', hxy'⟩ :=
        List.contains_iff_exists_mem_beq.mp (hall x' (List.mem_cons_of_mem _ hx'))
      have hne : ¬ (x == y') = true := fun h =>
        Bool.eq_false_iff.mp (hx x' hx') (BEq.trans h (BEq.symm hxy'))
      exact List.contains_iff_exists_mem_beq.mpr ⟨y', (List.mem_eraseP_of_neg hne).mpr hy', hxy'⟩
    have hlength := ih hrest hxs
    rw [List.length_eraseP_of_mem hy hxy] at hlength
    have hpos := List.length_pos_of_mem hy
    rw [List.length_cons]
    omega

/-- What is left of a list without repetitions is different elements of it, and there are no more of
these. -/
theorem eraseDups_spec (xs : List α) :
    xs.eraseDups.Sublist xs ∧ (xs.eraseDups.Pairwise fun x y => (x == y) = false) ∧
      ∀ ys : List α, (∀ y ∈ ys, y ∈ xs) → (ys.Pairwise fun x y => (x == y) = false) →
        ys.length ≤ xs.eraseDups.length :=
  ⟨eraseDups_sublist xs, pairwise_eraseDups xs, fun _ hall hdifferent =>
    length_le_of_pairwise (fun y hy => contains_eraseDups (hall y hy)) hdifferent⟩

end Distinct

/-- What counts about a check when it is compared with others. -/
def Check.key (c : Check) : Nat × Option (UInt32 ⊕ UInt32 ⊕ Identity) :=
  (c.operand, c.test.key)

theorem Check.beq_iff_key {c d : Check} : (c == d) = true ↔ c.key = d.key := by
  rw [Check.beq_iff, Test.beq_iff, Check.key, Check.key, Prod.mk.injEq]

namespace Guard

/-- What counts about a guard when it is compared with others: its form, and its checks in order. -/
def key : Guard → Option (Bool × List (Nat × Option (UInt32 ⊕ UInt32 ⊕ Identity)))
  | always => none
  | one c => some (false, [c.key])
  | all cs => some (true, cs.map Check.key)

theorem beq_iff {g h : Guard} : (g == h) = true ↔ g.key = h.key := by
  have hchecks : ∀ cs ds : List Check, (cs == ds) = true ↔ cs.map Check.key = ds.map Check.key := by
    intro cs ds
    induction cs generalizing ds with
    | nil => cases ds <;> simp
    | cons c cs ih =>
      cases ds with
      | nil => simp
      | cons d ds =>
        rw [List.cons_beq_cons, Bool.and_eq_true, Check.beq_iff_key, ih, List.map_cons,
          List.map_cons, List.cons.injEq]
  cases g <;> cases h
  case one.one c d =>
    show (c == d) = true ↔ _
    simp [key, Check.beq_iff_key]
  case all.all cs ds =>
    show (cs == ds) = true ↔ _
    simp [key, hchecks]
  all_goals simp [BEq.beq, instBEqGuard.beq, key]

instance : EquivBEq Guard where
  rfl := beq_iff.mpr rfl
  symm h := beq_iff.mpr (beq_iff.mp h).symm
  trans h k := beq_iff.mpr ((beq_iff.mp h).trans (beq_iff.mp k))

end Guard

/-- The guard of the rule, if the answer is one. -/
def Binding.guard? (binding : Binding) : Option Guard :=
  binding.rule?.map Rule.guard

namespace Tally

/-- Counts an answer. -/
def countBinding (t : Tally) : Binding → Tally
  | .deferred _ => t.countDeferral
  | .bound r => t.countRule r

/-- Counts answers, one after the other. -/
def post (t : Tally) (bindings : List Binding) : Tally :=
  bindings.foldl countBinding t

theorem post_append (t : Tally) (bindings more : List Binding) :
    t.post (bindings ++ more) = (t.post bindings).post more :=
  List.foldl_append

/-- Whether there is room decides, and if there is, whether the guard is new. -/
theorem variants_countRule {t : Tally} {gs : List Guard}
    (h : t.variants = gs.eraseDups.take variantLimit) (r : Rule) :
    (t.countRule r).variants = (gs ++ [r.guard]).eraseDups.take variantLimit := by
  simp only [countRule, eraseDups_concat]
  by_cases hroom : gs.eraseDups.length < variantLimit
  · have hle : gs.eraseDups.length ≤ variantLimit := Nat.le_of_lt hroom
    have hall : t.variants = gs.eraseDups := by rw [h, List.take_of_length_le hle]
    rw [hall, decide_eq_true hroom, Bool.true_and]
    cases hseen : gs.eraseDups.contains r.guard with
    | true => exact (List.take_of_length_le hle).symm
    | false =>
      refine (List.take_of_length_le (l := gs.eraseDups ++ [r.guard]) ?_).symm
      rw [List.length_append]
      exact hroom
  · have hfull : ¬ t.variants.length < variantLimit := by
      rw [h, List.length_take, Nat.min_eq_left (Nat.not_lt.mp hroom)]
      exact Nat.lt_irrefl _
    rw [decide_eq_false hfull, Bool.false_and, if_neg Bool.false_ne_true, h]
    split
    next => rfl
    next => rw [List.take_append_of_le_length (Nat.not_lt.mp hroom)]

theorem variants_post (bindings : List Binding) : (({} : Tally).post bindings).variants =
    (bindings.filterMap Binding.guard?).eraseDups.take variantLimit := by
  induction bindings using List.reverseRecOn with
  | nil => rfl
  | append_singleton bindings binding ih =>
    rw [post_append, List.filterMap_append]
    cases binding with
    | deferred pending =>
      rw [List.filterMap_cons_none rfl, List.filterMap_nil, List.append_nil]
      exact ih
    | bound r => exact variants_countRule ih r

theorem counts_post (t : Tally) (bindings : List Binding) :
    (t.post bindings).rules = t.rules + bindings.countP (!Binding.isDeferred ·) ∧
      (t.post bindings).deferrals = t.deferrals + bindings.countP Binding.isDeferred := by
  induction bindings generalizing t with
  | nil => exact ⟨rfl, rfl⟩
  | cons binding bindings ih =>
    have hrest : (t.post (binding :: bindings)) = (t.countBinding binding).post bindings := rfl
    rw [hrest, (ih _).1, (ih _).2]
    cases binding <;>
      simp [countBinding, countRule, countDeferral, Binding.isDeferred, List.countP_cons] <;> omega

/-- Every answer is counted once, as a rule or as a deferral. -/
theorem sum_post (t : Tally) (bindings : List Binding) :
    (t.post bindings).rules + (t.post bindings).deferrals =
      t.rules + t.deferrals + bindings.length := by
  have hsplit := List.length_eq_countP_add_countP Binding.isDeferred (l := bindings)
  simp only [Bool.not_eq_true, Bool.decide_eq_false] at hsplit
  rw [(counts_post t bindings).1, (counts_post t bindings).2]
  omega

/-- A new tally in which answers are counted has their rules and deferrals, and remembers the
different guards of the rules in order, up to the limit. -/
theorem post_spec (bindings : List Binding) :
    (({} : Tally).post bindings).rules = bindings.countP (!Binding.isDeferred ·) ∧
      (({} : Tally).post bindings).deferrals = bindings.countP Binding.isDeferred ∧
      (({} : Tally).post bindings).variants =
        (bindings.filterMap Binding.guard?).eraseDups.take variantLimit ∧
      (({} : Tally).post bindings).variants.length =
        min variantLimit (bindings.filterMap Binding.guard?).eraseDups.length := by
  obtain ⟨hrules, hdeferrals⟩ := counts_post {} bindings
  refine ⟨hrules.trans (Nat.zero_add _), hdeferrals.trans (Nat.zero_add _), variants_post bindings,
    ?_⟩
  rw [variants_post, List.length_take]

end Tally

end Dispatch
