import Dispatch.Proofs.Agreement

/-!
# The order of evaluation

What routines do is there to be seen, so it matters in which order an evaluation calls them, that it
calls none twice and that it stops where something fails. An evaluation is a tour of the nodes of
the tree in their order (`Fragment.Tour`): each visit does the deed of one node with the values that
the visits of its parts have produced, from the state that the visit before left behind. All visits
but the last produce a value, the last ends as the evaluation does, and if it produces a value too,
no node is left out. So the calls that are made are those of the visits (`evaluate_in_order`).

The induction is over the parts of a node from the left, and keeps one of two things: all parts so
far have been toured and have produced values (`TourAll`), or the tour has ended in one of them
(`Stop`), and nothing that follows is done.

In the runtime: `Fragment.evaluate` and `evaluate_all`.
-/

namespace Dispatch

variable {σ : Type}

/-- What happens at one node in the course of an evaluation. -/
structure Visit where
  place : Address
  node : Fragment
  /-- The values of the parts of the node. -/
  inputs : List Value
  ending : Except Panic (Outcome Value)

namespace Visit

/-- Where a visit is made. -/
def spot (v : Visit) : Address × Fragment :=
  (v.place, v.node)

/-- The visit, seen from where the tree is part `i`. -/
def inPart (i : Nat) (v : Visit) : Visit :=
  { v with place := i :: v.place }

/-- The node produces a value. -/
def Succeeds (v : Visit) : Prop :=
  ∃ x, v.ending = .ok (.ok x)

/-- One of the visits is to this place, and produces this value there. -/
def Produced (visits : List Visit) (place : Address) (x : Value) : Prop :=
  ∃ v ∈ visits, v.place = place ∧ v.ending = .ok (.ok x)

/-- What the node works with is what visits to its parts produced, one value for each. -/
def Fed (visits : List Visit) (v : Visit) : Prop :=
  v.inputs.length = v.node.parts.length ∧
    ∀ i x, v.inputs[i]? = some x → Produced visits (v.place ++ [i]) x

/-- What is called in a visit, and with which arguments. -/
def call? (operands : List Value) (v : Visit) : Option (Body × List Value) :=
  (v.node.deed operands v.inputs).call?

/-- Visits that lead from one state to another: each does the deed of its node where the one before
it left off, and ends as that does. -/
def Lead (call : Body → List Value → Run σ Value) (operands : List Value) :
    σ → List Visit → σ → Prop
  | s, [], t => t = s
  | s, v :: vs, t => ∃ u,
      ((v.node.deed operands v.inputs).run call).exec s = (v.ending, u) ∧ Lead call operands u vs t

variable {call : Body → List Value → Run σ Value} {operands : List Value} {i : Nat}
  {v : Visit} {visits more : List Visit}

theorem map_spot_inPart (i : Nat) (visits : List Visit) :
    (visits.map (inPart i)).map spot = (visits.map spot).map (Fragment.inPart i) := by
  rw [List.map_map, List.map_map]
  rfl

theorem lead_append {s t : σ} :
    Lead call operands s (visits ++ more) t ↔
      ∃ u, Lead call operands s visits u ∧ Lead call operands u more t := by
  induction visits generalizing s with
  | nil => exact ⟨fun h => ⟨s, rfl, h⟩, fun ⟨_, rfl, h⟩ => h⟩
  | cons v visits ih =>
    simp only [List.cons_append, Lead, ih]
    constructor
    · rintro ⟨w, hv, u, hvisits, hmore⟩
      exact ⟨u, ⟨w, hv, hvisits⟩, hmore⟩
    · rintro ⟨u, ⟨w, hv, hvisits⟩, hmore⟩
      exact ⟨w, hv, u, hvisits, hmore⟩

theorem lead_singleton {s t : σ} :
    Lead call operands s [v] t ↔
      ((v.node.deed operands v.inputs).run call).exec s = (v.ending, t) := by
  constructor
  · rintro ⟨_, hv, rfl⟩
    exact hv
  · intro hv
    exact ⟨t, hv, rfl⟩

/-- Where the tree stands makes no difference to what is done. -/
theorem lead_inPart {s t : σ} (h : Lead call operands s visits t) :
    Lead call operands s (visits.map (inPart i)) t := by
  induction visits generalizing s with
  | nil => exact h
  | cons v visits ih =>
    obtain ⟨u, hv, hvisits⟩ := h
    exact ⟨u, hv, ih hvisits⟩

/-- Each of the visits does the deed of its node somewhere on the way. -/
theorem exec_of_mem {s t : σ} (h : Lead call operands s visits t) (hv : v ∈ visits) :
    ∃ u w, ((v.node.deed operands v.inputs).run call).exec u = (v.ending, w) := by
  obtain ⟨before, after, rfl⟩ := List.append_of_mem hv
  obtain ⟨u, -, w, hdeed, -⟩ := lead_append.mp h
  exact ⟨u, w, hdeed⟩

theorem Produced.mono {p : Address} {x : Value} (h : Produced visits p x)
    (hsub : ∀ v ∈ visits, v ∈ more) : Produced more p x := by
  obtain ⟨v, hv, hplace, hending⟩ := h
  exact ⟨v, hsub v hv, hplace, hending⟩

theorem Produced.inPart {p : Address} {x : Value} (h : Produced visits p x) (i : Nat) :
    Produced (visits.map (inPart i)) (i :: p) x := by
  obtain ⟨v, hv, rfl, hending⟩ := h
  exact ⟨v.inPart i, List.mem_map_of_mem hv, rfl, hending⟩

theorem Fed.mono (h : v.Fed visits) (hsub : ∀ v ∈ visits, v ∈ more) : v.Fed more :=
  ⟨h.1, fun i x hx => (h.2 i x hx).mono hsub⟩

theorem Fed.inPart (h : v.Fed visits) (i : Nat) : (v.inPart i).Fed (visits.map (inPart i)) :=
  ⟨h.1, fun j x hx => (h.2 j x hx).inPart i⟩

end Visit

/-- A run that does not produce a value is not gone on with. -/
theorem Run.exec_bind_of_fails {α : Type} {x : Run σ α} {k : α → Run σ α} {s t : σ}
    {r : Except Panic (Outcome α)} (h : x.exec s = (r, t)) (hr : ¬ ∃ a, r = .ok (.ok a)) :
    (x >>= k).exec s = (r, t) := by
  rw [exec_bind, h]
  match r with
  | .ok (.ok a) => exact absurd ⟨a, rfl⟩ hr
  | .ok (.error fault) => rfl
  | .error p => rfl

open Visit

/-- An evaluation from a state as a tour of the tree: all visits but the last are done with, and the
last ends as the evaluation ends. -/
structure Fragment.Tour (call : Body → List Value → Run σ Value) (operands : List Value)
    (f : Fragment) (s : σ) (done : List Visit) (last : Visit) : Prop where
  lead : Lead call operands s (done ++ [last]) ((f.evaluate call operands).exec s).2
  ending : last.ending = ((f.evaluate call operands).exec s).1
  succeeds : ∀ v ∈ done, v.Succeeds
  fed : ∀ v ∈ done ++ [last], v.Fed done
  /-- The tree is toured in its order from the start, without a gap. -/
  ordered : (done ++ [last]).map spot <+: f.order
  complete : last.Succeeds → (done ++ [last]).map spot = f.order

namespace Fragment

variable {call : Body → List Value → Run σ Value} {operands : List Value}

/-- The parts of a node have been toured, and have produced these values. -/
structure TourAll (call : Body → List Value → Run σ Value) (operands : List Value)
    (fs : List Fragment) (s : σ) (visits : List Visit) (vs : List Value) (t : σ) : Prop where
  exec : (evaluateAll call operands fs).exec s = (.ok (.ok vs), t)
  lead : Lead call operands s visits t
  succeeds : ∀ v ∈ visits, v.Succeeds
  fed : ∀ v ∈ visits, v.Fed visits
  ordered : visits.map spot = orderAll fs
  length : vs.length = fs.length
  produced : ∀ i x, vs[i]? = some x → Produced visits [i] x

/-- The tour of the parts of a node has ended in one of them, and nothing goes on from there. -/
structure Stop (call : Body → List Value → Run σ Value) (operands : List Value)
    (fs : List Fragment) (s : σ) (done : List Visit) (last : Visit) (t : σ) : Prop where
  exec : ∀ k : List Value → Run σ Value,
    (evaluateAll call operands fs >>= k).exec s = (last.ending, t)
  lead : Lead call operands s (done ++ [last]) t
  fails : ¬ last.Succeeds
  succeeds : ∀ v ∈ done, v.Succeeds
  fed : ∀ v ∈ done ++ [last], v.Fed done
  ordered : (done ++ [last]).map spot <+: orderAll fs

variable {fs : List Fragment} {f : Fragment} {s t : σ} {visits done : List Visit} {last : Visit}
  {vs : List Value}

theorem tourAll_nil (call : Body → List Value → Run σ Value) (operands : List Value) (s : σ) :
    TourAll call operands [] s [] [] s where
  exec := by rw [evaluateAll, Run.exec_pure]
  lead := rfl
  succeeds := nofun
  fed := nofun
  ordered := rfl
  length := rfl
  produced := nofun

/-- What has stopped stays stopped. -/
theorem Stop.concat (h : Stop call operands fs s done last t) (f : Fragment) :
    Stop call operands (fs ++ [f]) s done last t where
  exec k := by
    rw [evaluateAll_concat, bind_assoc]
    exact h.exec _
  lead := h.lead
  fails := h.fails
  succeeds := h.succeeds
  fed := h.fed
  ordered := by
    rw [orderAll_concat]
    exact h.ordered.trans (List.prefix_append ..)

/-- A tour that produces a value ends at the node itself. -/
theorem Tour.spot_last (h : f.Tour call operands s done last) (hlast : last.Succeeds) :
    last.spot = ([], f) := by
  have horder := h.complete hlast
  rw [order_eq, List.map_append, List.map_singleton] at horder
  exact List.singleton_inj.mp (List.append_inj_right' horder rfl)

section Next

variable (h : TourAll call operands fs s visits vs t) (hf : f.Tour call operands t done last)
include h hf

theorem TourAll.lead_next : Lead call operands s
    ((visits ++ done.map (Visit.inPart fs.length)) ++ [last.inPart fs.length])
    ((f.evaluate call operands).exec t).2 := by
  rw [List.append_assoc, ← List.map_singleton, ← List.map_append]
  exact lead_append.mpr ⟨t, h.lead, lead_inPart hf.lead⟩

theorem TourAll.succeeds_next :
    ∀ v ∈ visits ++ done.map (Visit.inPart fs.length), v.Succeeds := by
  intro v hv
  rcases List.mem_append.mp hv with hv | hv
  · exact h.succeeds v hv
  · obtain ⟨w, hw, rfl⟩ := List.mem_map.mp hv
    exact hf.succeeds w hw

theorem TourAll.fed_next :
    ∀ v ∈ (visits ++ done.map (Visit.inPart fs.length)) ++ [last.inPart fs.length],
      v.Fed (visits ++ done.map (Visit.inPart fs.length)) := by
  intro v hv
  rw [List.append_assoc, ← List.map_singleton, ← List.map_append] at hv
  rcases List.mem_append.mp hv with hv | hv
  · exact (h.fed v hv).mono fun w => List.mem_append_left _
  · obtain ⟨w, hw, rfl⟩ := List.mem_map.mp hv
    exact ((hf.fed w hw).inPart fs.length).mono fun w => List.mem_append_right _

omit hf in
theorem TourAll.spot_next :
    ((visits ++ done.map (Visit.inPart fs.length)) ++ [last.inPart fs.length]).map spot =
      orderAll fs ++ ((done ++ [last]).map spot).map (Fragment.inPart fs.length) := by
  rw [List.append_assoc, ← List.map_singleton, ← List.map_append, List.map_append, h.ordered,
    map_spot_inPart]

/-- The values of the parts and then that of the next part were produced by visits to them. -/
theorem TourAll.produced_next {x : Value} (hx : last.ending = .ok (.ok x)) {i : Nat} {y : Value}
    (hy : (vs ++ [x])[i]? = some y) :
    Produced ((visits ++ done.map (Visit.inPart fs.length)) ++ [last.inPart fs.length]) [i] y := by
  rcases Nat.lt_or_ge i vs.length with hi | hi
  · rw [List.getElem?_append_left hi] at hy
    exact (h.produced i y hy).mono fun w hw => List.mem_append_left _ (List.mem_append_left _ hw)
  · rw [List.getElem?_append_right hi, List.getElem?_singleton] at hy
    split at hy
    next hzero =>
      -- a tour that is done with ends at the part itself
      obtain rfl := Option.some.inj hy
      have hplace : last.place = [] := congrArg Prod.fst (hf.spot_last ⟨x, hx⟩)
      refine ⟨last.inPart fs.length, List.mem_append_right _ (List.mem_singleton_self _), ?_, hx⟩
      rw [Visit.inPart, hplace, ← h.length, show i = vs.length by omega]
    next => cases hy

/-- After some parts the next one is toured, and if the tour is done with it, so it is with all. -/
theorem TourAll.concat {x : Value} (hx : last.ending = .ok (.ok x)) :
    TourAll call operands (fs ++ [f]) s
      ((visits ++ done.map (Visit.inPart fs.length)) ++ [last.inPart fs.length]) (vs ++ [x])
      ((f.evaluate call operands).exec t).2 where
  exec := by
    have hexec : (f.evaluate call operands).exec t =
        (.ok (.ok x), ((f.evaluate call operands).exec t).2) :=
      Prod.ext (hf.ending.symm.trans hx) rfl
    rw [evaluateAll_concat, Run.exec_bind_ok h.exec, Run.exec_bind_ok hexec, Run.exec_pure]
  lead := h.lead_next hf
  succeeds v hv := by
    rcases List.mem_append.mp hv with hv | hv
    · exact h.succeeds_next hf v hv
    · rw [List.mem_singleton.mp hv]
      exact ⟨x, hx⟩
  fed v hv := (h.fed_next hf v hv).mono fun w => List.mem_append_left _
  ordered := by rw [h.spot_next, hf.complete ⟨x, hx⟩, orderAll_concat]
  length := by rw [List.length_append, List.length_append, h.length, List.length_singleton,
    List.length_singleton]
  produced _ _ := h.produced_next hf hx

/-- If the tour ends in the next part without a value, it has ended for all. -/
theorem TourAll.stop (hlast : ¬ last.Succeeds) :
    Stop call operands (fs ++ [f]) s (visits ++ done.map (Visit.inPart fs.length))
      (last.inPart fs.length) ((f.evaluate call operands).exec t).2 where
  exec k := by
    have hexec : (f.evaluate call operands).exec t =
        (last.ending, ((f.evaluate call operands).exec t).2) :=
      Prod.ext hf.ending.symm rfl
    rw [evaluateAll_concat, bind_assoc, Run.exec_bind_ok h.exec, bind_assoc]
    exact Run.exec_bind_of_fails hexec hlast
  lead := h.lead_next hf
  fails := hlast
  succeeds := h.succeeds_next hf
  fed := h.fed_next hf
  ordered := by
    rw [h.spot_next, orderAll_concat]
    exact List.prefix_append_right_inj _ |>.mpr (hf.ordered.map _)

end Next

/-- The parts of a node are toured from left to right, up to the first in which the tour ends. -/
theorem tourAll_or_stop
    (h : ∀ f ∈ fs, ∀ s, ∃ done last, f.Tour call operands s done last) (s : σ) :
    (∃ visits vs t, TourAll call operands fs s visits vs t) ∨
      ∃ done last t, Stop call operands fs s done last t := by
  induction fs using List.reverseRecOn with
  | nil => exact .inl ⟨[], [], s, tourAll_nil call operands s⟩
  | append_singleton fs f ih =>
    rcases ih fun g hg => h g (List.mem_append_left _ hg) with
      ⟨visits, vs, t, htoured⟩ | ⟨done, last, t, hstopped⟩
    · obtain ⟨done, last, hf⟩ := h f (List.mem_append_right _ (List.mem_singleton_self f)) t
      by_cases hlast : last.Succeeds
      · obtain ⟨x, hx⟩ := hlast
        exact .inl ⟨_, _, _, htoured.concat hf hx⟩
      · exact .inr ⟨_, _, _, htoured.stop hf hlast⟩
    · exact .inr ⟨done, last, t, hstopped.concat f⟩

/-- Every evaluation is a tour of the tree. -/
theorem exists_tour (call : Body → List Value → Run σ Value) (operands : List Value)
    (f : Fragment) : ∀ s, ∃ done last, f.Tour call operands s done last := by
  induction f using of_parts with
  | step f ih =>
    intro s
    rcases tourAll_or_stop ih s with ⟨visits, vs, t, htoured⟩ | ⟨done, last, t, hstopped⟩
    · -- the node is visited last, with what its parts produced
      have hexec : (f.evaluate call operands).exec s = ((f.deed operands vs).run call).exec t := by
        rw [evaluate_eq, Run.exec_bind_ok htoured.exec]
      let root : Visit := ⟨[], f, vs, (((f.deed operands vs).run call).exec t).1⟩
      have horder : (visits ++ [root]).map spot = f.order := by
        rw [List.map_append, htoured.ordered, order_eq]
        rfl
      refine ⟨visits, root, ?_, ?_, htoured.succeeds, ?_, ?_, fun _ => horder⟩
      · rw [hexec]
        exact lead_append.mpr ⟨t, htoured.lead, lead_singleton.mpr rfl⟩
      · rw [hexec]
      · intro v hv
        rcases List.mem_append.mp hv with hv | hv
        · exact htoured.fed v hv
        · rw [List.mem_singleton.mp hv]
          exact ⟨htoured.length, htoured.produced⟩
      · exact horder ▸ List.prefix_rfl
    · have hexec : (f.evaluate call operands).exec s = (last.ending, t) := by
        rw [evaluate_eq]
        exact hstopped.exec _
      refine ⟨done, last, ?_, ?_, hstopped.succeeds, hstopped.fed, ?_,
        fun hlast => absurd hlast hstopped.fails⟩
      · rw [hexec]
        exact hstopped.lead
      · rw [hexec]
      · rw [order_eq]
        exact hstopped.ordered.trans (List.prefix_append ..)

end Fragment

section Recording

variable {call : Body → List Value → Run σ Value} {operands : List Value}

/-- Routines that do what they do, with a record of the calls. -/
def recorded (call : Body → List Value → Run σ Value) (body : Body) (args : List Value) :
    Run (σ × List (Body × List Value)) Value :=
  ExceptT.mk <| ExceptT.mk fun x =>
    let (r, t) := (call body args).exec x.1
    (r, t, x.2 ++ [(body, args)])

/-- The calls that an evaluation makes from a state, one after the other. -/
def Fragment.calls (call : Body → List Value → Run σ Value) (operands : List Value) (f : Fragment)
    (s : σ) : List (Body × List Value) :=
  ((f.evaluate (recorded call) operands).exec (s, [])).2.2

theorem Deed.exec_run_recorded (d : Deed) (s : σ) (made : List (Body × List Value)) :
    (d.run (recorded call)).exec (s, made) =
      (((d.run call).exec s).1, ((d.run call).exec s).2, made ++ d.call?.toList) := by
  cases d with
  | call body args => rfl
  | settle outcome => simp [call?]

/-- To keep a record changes nothing about an evaluation. -/
theorem Fragment.exec_evaluate_recorded (call : Body → List Value → Run σ Value)
    (operands : List Value) (f : Fragment) (s : σ) :
    ((f.evaluate (recorded call) operands).exec (s, [])).1 =
        ((f.evaluate call operands).exec s).1 ∧
      ((f.evaluate (recorded call) operands).exec (s, [])).2.1 =
        ((f.evaluate call operands).exec s).2 := by
  have hcall : ∀ body args, Run.Agree (fun x s => x.1 = s) (recorded call body args)
      (call body args) := by
    rintro body args ⟨s, made⟩ _ rfl
    exact ⟨rfl, rfl⟩
  exact evaluate_agree hcall operands f (s, []) s rfl

/-- The calls that are recorded are those of the visits. -/
theorem Visit.lead_of_recorded {visits : List Visit} {s : σ} {made : List (Body × List Value)}
    {x : σ × List (Body × List Value)} (h : Lead (recorded call) operands (s, made) visits x) :
    Lead call operands s visits x.1 ∧ x.2 = made ++ visits.filterMap (call? operands) := by
  induction visits generalizing s made with
  | nil =>
    obtain rfl : x = (s, made) := h
    exact ⟨rfl, by simp⟩
  | cons v visits ih =>
    obtain ⟨u, hv, hvisits⟩ := h
    rw [Deed.exec_run_recorded] at hv
    obtain ⟨hending, rfl⟩ := Prod.mk.inj hv
    obtain ⟨hlead, hall⟩ := ih hvisits
    refine ⟨⟨_, Prod.ext hending rfl, hlead⟩, ?_⟩
    rw [hall, List.append_assoc, List.filterMap_cons, call?]
    cases (v.node.deed operands v.inputs).call? <;> rfl

end Recording

namespace Fragment

/-- Every evaluation is a tour of the tree, and calls what the visits call. -/
theorem exists_tour_calling (call : Body → List Value → Run σ Value) (operands : List Value)
    (f : Fragment) (s : σ) :
    ∃ done last, f.Tour call operands s done last ∧
      f.calls call operands s = (done ++ [last]).filterMap (Visit.call? operands) := by
  obtain ⟨done, last, htour⟩ := exists_tour (recorded call) operands f (s, [])
  obtain ⟨hending, hstate⟩ := exec_evaluate_recorded call operands f s
  obtain ⟨hlead, hcalls⟩ := Visit.lead_of_recorded htour.lead
  refine ⟨done, last, ?_, hcalls⟩
  exact
    { lead := hstate ▸ hlead
      ending := htour.ending.trans hending
      succeeds := htour.succeeds
      fed := htour.fed
      ordered := htour.ordered
      complete := htour.complete }

/-- Where a node produces a value it has called something, if it is there to do so: what is called
as a function is one. -/
theorem isSome_call?_of_succeeds {call : Body → List Value → Run σ Value} {operands : List Value}
    {v : Visit} {u w : σ}
    (h : ((v.node.deed operands v.inputs).run call).exec u = (v.ending, w)) (hv : v.Succeeds) :
    (v.call? operands).isSome = v.node.isCall := by
  obtain ⟨x, hx⟩ := hv
  rw [Visit.call?]
  cases hnode : v.node with
  | invoke callee args t =>
    rw [hnode, deed] at h
    rw [deed]
    split
    next => rfl
    next hnone =>
      -- what is no function is not called, and nothing is produced
      split at h
      next c hc => exact absurd hc (hnone c)
      next =>
        rw [Deed.exec_run_settle, hx] at h
        cases h
  | _ => rfl

/-- Evaluation is in order. The nodes of a fragment are ordered depth first and from left to right,
each place once, and an evaluation is a tour of them in this order: it does the deed of each node
with the values of its parts, as long as values are produced, and ends as the last deed ends, which
is that of the whole fragment if all went well. Nothing else is done, so what is called is what the
nodes visited call, and each of them that is there to call something does, unless it fails. -/
theorem evaluate_in_order (call : Body → List Value → Run σ Value) (operands : List Value)
    (f : Fragment) (s : σ) :
    (f.order.map Prod.fst).Pairwise Address.Before ∧
      (∀ p g, (p, g) ∈ f.order ↔ f.node? p = some g) ∧
      ∃ done last, f.Tour call operands s done last ∧
        f.calls call operands s = (done ++ [last]).filterMap (Visit.call? operands) ∧
        ∀ v ∈ done ++ [last], v.Succeeds → (v.call? operands).isSome = v.node.isCall := by
  obtain ⟨done, last, htour, hcalls⟩ := exists_tour_calling call operands f s
  refine ⟨pairwise_order f, fun p g => mem_order, done, last, htour, hcalls, fun v hv => ?_⟩
  obtain ⟨u, w, hdeed⟩ := Visit.exec_of_mem htour.lead hv
  exact isSome_call?_of_succeeds hdeed

/-- What is no function is found out only after the arguments are evaluated. -/
example :
    let call : Body → List Value → Run Unit Value := fun _ _ => pure .nil
    let f : Fragment := .invoke (.constant (.integer 1) .integer)
      [.host "tick" [] (.native 0) .object] .object
    (f.evaluate call []).exec () = (.ok (.error (.notCallable "integer")), ()) ∧
      f.calls call [] () = [(.native 0, [])] :=
  ⟨rfl, rfl⟩

end Fragment

end Dispatch
