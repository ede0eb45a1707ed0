import Dispatch.Guard.Basic
import Dispatch.Proofs.Order

/-!
# What is read of the operands

A rule that was made for some operands is run on others, so it matters which of them it looks at. A
fragment looks at the positions that its operand nodes mention (`Fragment.Mentions`) and at no
others, present or not: on rows that agree there, an evaluation is one and the same run
(`evaluate_congr`). A guard looks at the positions of its checks.

A position that is mentioned and not there makes the fragment fail. Where all of them are there, a
fault of this sort is none of the fragment's own: it comes out of the last routine called
(`reads_what_it_mentions`).

In the runtime: `Fragment.evaluate`, `Check.test` and `Guard.check`.
-/

namespace Dispatch

variable {σ : Type}

/-- Guards look at the positions of their checks. -/
theorem Guard.check_congr {g : Guard} {operands others : List Value}
    (h : ∀ c ∈ g.checks, operands[c.operand]? = others[c.operand]?) :
    g.check operands = g.check others := by
  rw [check, check, Bool.eq_iff_iff, List.all_eq_true, List.all_eq_true]
  refine forall₂_congr fun c hc => ?_
  rw [Check.passes, Check.passes, h c hc]

namespace Fragment

/-- The operand at the position is read somewhere in the tree. -/
def Mentions (f : Fragment) (i : Nat) : Prop :=
  ∃ p t, f.node? p = some (.operand i t)

variable {call : Body → List Value → Run σ Value} {operands others : List Value} {f g : Fragment}
  {i : Nat}

/-- A fragment mentions what it reads itself and what its parts mention. -/
theorem mentions_iff : f.Mentions i ↔ (∃ t, f = operand i t) ∨ ∃ g ∈ f.parts, g.Mentions i := by
  constructor
  · rintro ⟨_ | ⟨j, p⟩, t, hnode⟩
    · exact .inl ⟨t, Option.some.inj hnode⟩
    · rw [node?, Option.bind_eq_some_iff] at hnode
      obtain ⟨g, hg, hnode⟩ := hnode
      exact .inr ⟨g, List.mem_of_getElem? hg, p, t, hnode⟩
  · rintro (⟨t, rfl⟩ | ⟨g, hg, p, t, hnode⟩)
    · exact ⟨[], t, rfl⟩
    · obtain ⟨j, hj⟩ := List.getElem?_of_mem hg
      refine ⟨j :: p, t, ?_⟩
      rw [node?, hj]
      exact hnode

/-- The deed of a node is one on rows that agree where they are read. -/
theorem deed_congr (h : ∀ i, f.Mentions i → operands[i]? = others[i]?) :
    f.deed operands = f.deed others := by
  funext vs
  cases f with
  | operand i t => rw [deed, deed, h i (mentions_iff.mpr (.inl ⟨t, rfl⟩))]
  | _ => rfl

theorem evaluateAll_congr {fs : List Fragment}
    (h : ∀ f ∈ fs, f.evaluate call operands = f.evaluate call others) :
    evaluateAll call operands fs = evaluateAll call others fs := by
  induction fs with
  | nil => rw [evaluateAll, evaluateAll]
  | cons f fs ih =>
    rw [evaluateAll, evaluateAll, h f (List.mem_cons_self ..),
      ih fun g hg => h g (List.mem_cons_of_mem _ hg)]

/-- Evaluation is one and the same run on rows that agree where they are read. -/
theorem evaluate_congr (h : ∀ i, f.Mentions i → operands[i]? = others[i]?) :
    f.evaluate call operands = f.evaluate call others := by
  induction f using of_parts with
  | step f ih =>
    have hparts : ∀ g ∈ f.parts, g.evaluate call operands = g.evaluate call others :=
      fun g hg => ih g hg fun i hi => h i (mentions_iff.mpr (.inr ⟨g, hg, hi⟩))
    rw [evaluate_eq, evaluate_eq, evaluateAll_congr hparts, deed_congr h]

/-- Only a node that reads an operand settles on a fault for the want of it. -/
theorem eq_operand_of_deed {vs : List Value}
    (h : f.deed operands vs = .settle (.error (.missingOperand i))) :
    (∃ t, f = .operand i t) ∧ operands[i]? = none := by
  cases f with
  | operand j t =>
    rw [deed] at h
    split at h
    next => cases h
    next hnone =>
      cases h
      exact ⟨⟨t, rfl⟩, hnone⟩
  | invoke callee args t =>
    rw [deed] at h
    split at h <;> cases h
  | coerced inner t =>
    rw [deed, Ty.admit] at h
    split at h
    next => cases h
    next => split at h <;> cases h
  | _ => cases h

/-- Where all that is mentioned is there, the want of an operand is what the last routine called has
ended with. -/
theorem missing_of_call (h : ∀ i, f.Mentions i → i < operands.length) {s t : σ}
    (hmissing : (f.evaluate call operands).exec s = (.ok (.error (.missingOperand i)), t)) :
    ∃ earlier body args u, f.calls call operands s = earlier ++ [(body, args)] ∧
      (call body args).exec u = (.ok (.error (.missingOperand i)), t) := by
  obtain ⟨done, last, htour, hcalls⟩ := exists_tour_calling call operands f s
  have hending := htour.ending
  have hlead := htour.lead
  rw [hmissing] at hending hlead
  obtain ⟨u, -, hlast⟩ := Visit.lead_append.mp hlead
  rw [Visit.lead_singleton, hending] at hlast
  cases hdeed : last.node.deed operands last.inputs with
  | call body args =>
    refine ⟨done.filterMap (Visit.call? operands), body, args, u, ?_, ?_⟩
    · rw [hcalls, List.filterMap_append, List.filterMap_cons, Visit.call?, hdeed]
      rfl
    · rw [hdeed] at hlast
      exact hlast
  | settle outcome =>
    -- then it would be a node of the fragment that misses its operand
    rw [hdeed, Deed.exec_run_settle] at hlast
    cases hlast
    obtain ⟨⟨t, hnode⟩, hnone⟩ := eq_operand_of_deed hdeed
    have hmem : last.spot ∈ f.order :=
      htour.ordered.subset (List.mem_map_of_mem (List.mem_append_right _ (List.mem_singleton_self _)))
    have hmentions : f.Mentions i := ⟨last.place, t, by rw [← hnode]; exact mem_order.mp hmem⟩
    rw [List.getElem?_eq_none_iff] at hnone
    exact absurd (h i hmentions) (Nat.not_lt.mpr hnone)

/-- A fragment and a guard read of the operands only what they mention. On rows that agree there the
fragment is one run, which calls the same routines with the same arguments, and where all that is
mentioned is there it misses no operand itself. A guard holds on both of two rows that agree there
or on neither, and goes on to hold on a row when more operands follow. -/
theorem reads_what_it_mentions (call : Body → List Value → Run σ Value) (f : Fragment) (g : Guard)
    (operands : List Value) :
    (∀ others : List Value, (∀ i, f.Mentions i → operands[i]? = others[i]?) →
      f.evaluate call operands = f.evaluate call others ∧
        ∀ s, f.calls call operands s = f.calls call others s) ∧
    ((∀ i, f.Mentions i → i < operands.length) → ∀ i s t,
      (f.evaluate call operands).exec s = (.ok (.error (.missingOperand i)), t) →
        ∃ earlier body args u, f.calls call operands s = earlier ++ [(body, args)] ∧
          (call body args).exec u = (.ok (.error (.missingOperand i)), t)) ∧
    (∀ others : List Value, (∀ c ∈ g.checks, operands[c.operand]? = others[c.operand]?) →
      g.check operands = g.check others) ∧
    (g.check operands = true → ∀ more, g.check (operands ++ more) = true) := by
  refine ⟨fun others h => ⟨evaluate_congr h, fun s => ?_⟩, fun h i s t => missing_of_call h,
    fun others => Guard.check_congr, Guard.check_append⟩
  rw [calls, calls, evaluate_congr h]

/-- A routine that is given the second operand does not notice that the first has changed, and if
it misses an operand that is no fault of the fragment. -/
theorem reads_second_operand :
    let call : Body → List Value → Run Unit Value := fun _ _ => throw (.missingOperand 7)
    let f : Fragment := .host "second" [.operand 1 .integer] (.native 0) .integer
    f.evaluate call [.nil, .integer 5] = f.evaluate call [.text "a", .integer 5, .nil] ∧
      (∃ earlier body args u, f.calls call [.nil, .integer 5] () = earlier ++ [(body, args)] ∧
        (call body args).exec u = (.ok (.error (.missingOperand 7)), ())) ∧
      (Guard.typeIs 1 .integer).check [.text "a", .integer 5, .nil] = true ∧
      (Guard.typeIs 1 .integer).check [.nil, .integer 5, .nil] = true := by
  intro call f
  have hmentions : ∀ i, f.Mentions i → i = 1 := by
    intro i hi
    rw [mentions_iff] at hi
    simpa [f, parts, mentions_iff (f := operand 1 .integer), eq_comm] using hi
  obtain ⟨hsame, hmissing, hcheck, hmore⟩ :=
    reads_what_it_mentions call f (.typeIs 1 .integer) [.nil, .integer 5]
  refine ⟨(hsame [.text "a", .integer 5, .nil] ?_).1, hmissing ?_ 7 () () rfl, ?_,
    hmore rfl [.nil]⟩
  · intro i hi
    rw [hmentions i hi]
    rfl
  · intro i hi
    rw [hmentions i hi]
    decide
  · rw [← hcheck [.text "a", .integer 5, .nil]]
    · rfl
    · intro c hc
      rw [List.mem_singleton.mp hc]
      rfl

end Fragment

end Dispatch
