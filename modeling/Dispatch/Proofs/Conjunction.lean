import Dispatch.Guard.Basic

/-!
# Guards as conjunctions

To merge guards is to form a conjunction, and there is one way to write it. A guard is *canonical*
if it has the form that its number of checks calls for and no check twice. Guards that are merged
are canonical whatever they were before, and their checks are those of both, each where it is first
met. So merging is associative, not only up to what guards hold on, and it changes nothing about a
guard but to bring it into canonical form (`merge_canonical`).

Which checks are met first does not depend on how they are grouped. This is one equation, on checks
that have been seen and checks to come (`firsts_firsts`), and the rest follows from it.

In the runtime: `Guard.merge` and `into_checks`.
-/

namespace Dispatch.Guard

/-- The form that the number of checks calls for, with no check twice. -/
def Canonical : Guard → Prop
  | always | one _ => True
  | all cs => 2 ≤ cs.length ∧ cs.Pairwise fun c d => (c == d) = false

/-- The canonical guard with the checks of a guard, each at its first place. -/
def normal (g : Guard) : Guard :=
  ofChecks g.checks.eraseDups

theorem firsts_append (seen cs ds : List Check) :
    firsts seen (cs ++ ds) = firsts (firsts seen cs) ds := by
  induction cs generalizing seen with
  | nil => rfl
  | cons c cs ih => rw [List.cons_append, firsts, firsts, ih]

/-- To take the first ones of what comes makes no difference to what is added. -/
theorem firsts_firsts (seen cs ds : List Check) :
    firsts seen (firsts cs ds) = firsts (firsts seen cs) ds := by
  induction ds generalizing cs with
  | nil => rfl
  | cons d ds ih =>
    rw [firsts, ih, firsts]
    congr 1
    cases hcs : cs.contains d with
    | true => simp [contains_firsts, hcs]
    | false =>
      rw [if_neg Bool.false_ne_true, firsts_append]
      rfl

/-- Nothing is added to checks that are all seen already. -/
theorem firsts_of_contains {seen cs : List Check} (h : ∀ c ∈ cs, seen.contains c = true) :
    firsts seen cs = seen := by
  induction cs with
  | nil => rfl
  | cons c cs ih =>
    rw [firsts, if_pos (h c (List.mem_cons_self ..))]
    exact ih fun d hd => h d (List.mem_cons_of_mem _ hd)

/-- The first ones are all different. -/
theorem pairwise_firsts {seen : List Check} (cs : List Check)
    (h : seen.Pairwise fun c d => (c == d) = false) :
    (firsts seen cs).Pairwise fun c d => (c == d) = false := by
  induction cs generalizing seen with
  | nil => exact h
  | cons c cs ih =>
    rw [firsts]
    split
    next => exact ih h
    next hnew =>
      refine ih (List.pairwise_append.mpr ⟨h, List.pairwise_singleton _ _, ?_⟩)
      intro d hd e he
      rw [List.mem_singleton.mp he, Bool.eq_false_iff]
      exact fun hdc => hnew (List.contains_iff_exists_mem_beq.mpr ⟨d, hd, BEq.symm hdc⟩)

/-- The first ones of a list of checks are what is left of it without repetitions. -/
theorem firsts_nil_eq_eraseDups (cs : List Check) : firsts [] cs = cs.eraseDups := by
  have hloop : ∀ seen cs : List Check,
      firsts seen cs = List.eraseDupsBy.loop (· == ·) cs seen.reverse := by
    intro seen cs
    induction cs generalizing seen with
    | nil => simp [firsts, List.eraseDupsBy.loop]
    | cons c cs ih =>
      rw [firsts, ih, List.eraseDupsBy.loop, List.any_reverse, ← List.contains_eq_any_beq]
      cases seen.contains c with
      | true => rfl
      | false => simp
  exact hloop [] cs

theorem normal_eq (g : Guard) : g.normal = ofChecks (firsts [] g.checks) := by
  rw [normal, firsts_nil_eq_eraseDups]

theorem canonical_ofChecks {cs : List Check} (h : cs.Pairwise fun c d => (c == d) = false) :
    (ofChecks cs).Canonical := by
  match cs with
  | [] => trivial
  | [_] => trivial
  | _ :: _ :: cs => exact ⟨by simp, h⟩

/-- A guard is in normal form just if it is canonical. -/
theorem normal_eq_self_iff {g : Guard} : g.normal = g ↔ g.Canonical := by
  constructor
  · intro h
    rw [← h, normal_eq]
    exact canonical_ofChecks (pairwise_firsts _ List.Pairwise.nil)
  · intro h
    rw [normal_eq]
    match g with
    | always => rfl
    | one _ => rfl
    | all (c :: d :: cs) =>
      rw [checks, firsts_of_distinct [] h.2]
      rfl

/-- Guards merged one after the other may be grouped in any way. -/
theorem merge_assoc (a b c : Guard) : (a.merge b).merge c = a.merge (b.merge c) := by
  have hchecks : firsts [] ((a.merge b).checks ++ c.checks) =
      firsts [] (a.checks ++ (b.merge c).checks) :=
    calc firsts [] ((a.merge b).checks ++ c.checks)
        = firsts (firsts [] (firsts [] (a.checks ++ b.checks))) c.checks := by
          rw [checks_merge, firsts_append]
      _ = firsts (firsts [] (a.checks ++ b.checks)) c.checks := by rw [firsts_firsts]; rfl
      _ = firsts (firsts [] a.checks) (b.checks ++ c.checks) := by
          rw [firsts_append, ← firsts_append]
      _ = firsts (firsts [] a.checks) (firsts [] (b.checks ++ c.checks)) := by
          rw [firsts_firsts]; rfl
      _ = firsts [] (a.checks ++ (b.merge c).checks) := by rw [checks_merge, ← firsts_append]
  exact congrArg ofChecks hchecks

/-- Merging forms conjunctions in canonical form. A merged guard holds, on values or on what is
known of operands, just where both parts do. Its checks are those of the one part and then of the
other, without repetitions, and its form is canonical. Guards merged one after the other may be
grouped in any way. To merge a guard with one that always holds or with itself brings it into
normal form, which canonical guards have, and so have those that were merged and those of one
check. -/
theorem merge_canonical (a b c : Guard) :
    (∀ operands, (a.merge b).check operands = true ↔
      a.check operands = true ∧ b.check operands = true) ∧
    (∀ operands, (a.merge b).holds operands = true ↔
      a.holds operands = true ∧ b.holds operands = true) ∧
    (a.merge b).checks = (a.checks ++ b.checks).eraseDups ∧
    (a.merge b).Canonical ∧
    (a.merge b).merge c = a.merge (b.merge c) ∧
    (a.merge always = a.normal ∧ always.merge a = a.normal ∧ a.merge a = a.normal) ∧
    (a.normal = a ↔ a.Canonical) ∧ (a.merge b).normal = a.merge b ∧
    ∀ check, (one check).normal = one check := by
  have hcanonical : (a.merge b).Canonical :=
    canonical_ofChecks (pairwise_firsts _ List.Pairwise.nil)
  refine ⟨fun operands => ?_, fun operands => ?_, ?_, hcanonical, ?_, ⟨?_, ?_, ?_⟩,
    normal_eq_self_iff, normal_eq_self_iff.mpr hcanonical, fun _ => rfl⟩
  · rw [check_merge, Bool.and_eq_true]
  · rw [holds_merge, Bool.and_eq_true]
  · rw [checks_merge, firsts_nil_eq_eraseDups]
  · exact merge_assoc a b c
  · rw [merge, normal_eq]
    exact congrArg (fun cs => ofChecks (firsts [] cs)) (List.append_nil _)
  · rw [merge, normal_eq]
    rfl
  · rw [merge, normal_eq, firsts_append, firsts_of_contains]
    intro d hd
    rw [contains_firsts, List.contains_iff_exists_mem_beq.mpr ⟨d, hd, BEq.rfl⟩, Bool.or_true]

end Dispatch.Guard
