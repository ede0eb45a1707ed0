import Mathlib.Data.List.Induction
import Dispatch.Fragment.Evaluate

/-!
# The nodes of a fragment

A fragment is a tree, and each of its nodes does one thing of its own once its parts have produced
their values: it calls a routine, or it settles on a value or a fault without calling anything. This
`Deed` is all that tells one node from another, so a fragment is evaluated by evaluating its parts
from left to right and doing the deed with their values (`evaluate_eq`), and whatever holds of a
node when it holds of its parts holds of all fragments (`of_parts`). What follows about evaluation
needs no look at the eight sorts of nodes again.

One tree may stand in many places of another, so nodes are told apart by their addresses. `order`
lists them as they act, the parts of a node before the node. It is an order of addresses
(`pairwise_order`) and leaves out nothing (`mem_order`).

In the runtime: `Node` and `Fragment.evaluate`.
-/

namespace Dispatch

variable {σ : Type}

/-- Where a node is in a tree: which part to take, of each node on the way down. -/
abbrev Address := List Nat

/-- The order of addresses, depth first and from left to right: what is below a node comes before
the node, and of two parts of one node the first with all that is below it. No address comes before
itself. -/
def Address.Before : Address → Address → Prop
  | [], _ => False
  | _ :: _, [] => True
  | i :: p, j :: q => i < j ∨ i = j ∧ Before p q

/-- What a node does of its own. -/
inductive Deed where
  | call (body : Body) (args : List Value)
  | settle (outcome : Outcome Value)

namespace Deed

/-- What is called, and with which arguments. -/
def call? : Deed → Option (Body × List Value)
  | call body args => some (body, args)
  | settle _ => none

def run (call : Body → List Value → Run σ Value) : Deed → Run σ Value
  | .call body args => call body args
  | .settle (.ok v) => pure v
  | .settle (.error fault) => throw fault

@[simp] theorem exec_run_settle (call : Body → List Value → Run σ Value) (outcome : Outcome Value)
    (s : σ) : ((settle outcome).run call).exec s = (.ok outcome, s) := by
  cases outcome <;> rfl

end Deed

namespace Fragment

/-- What is evaluated before a node does anything of its own, from left to right. -/
def parts : Fragment → List Fragment
  | constant _ _ | zero _ | operand _ _ | raise _ _ => []
  | host _ args _ _ => args
  | invoke callee args _ => callee :: args
  | coerced inner _ => [inner]
  | sequence first next => [first, next]

/-- What a node does with the values of its parts. -/
def deed (operands : List Value) : Fragment → List Value → Deed
  | constant v _, _ => .settle (.ok v)
  | zero t, _ => .settle (.ok t.zero)
  | operand position _, _ =>
    .settle <| match operands[position]? with
      | some v => .ok v
      | none => .error (.missingOperand position)
  | raise message _, _ => .settle (.error (.raised message))
  | host _ _ body _, args => .call body args
  | invoke _ _ _, vs =>
    match Value.first vs with
    | .callable c => .call c.body vs.tail
    | other => .settle (.error (.notCallable other.type.name))
  | coerced _ t, vs => .settle <| t.admit (Value.first vs)
  | sequence _ _, vs => .settle (.ok (vs.getLastD .nil))

/-- Whether a node is there to call something. -/
def isCall : Fragment → Bool
  | host .. | invoke .. => true
  | _ => false

/-- The node at an address. -/
def node? (f : Fragment) : Address → Option Fragment
  | [] => some f
  | i :: p => f.parts[i]?.bind fun g => g.node? p

theorem sizeOf_lt_of_mem_parts {f g : Fragment} (h : g ∈ f.parts) : sizeOf g < sizeOf f := by
  cases f with
  | constant | zero | operand | raise => cases h
  | host name args body t =>
    have := List.sizeOf_lt_of_mem (show g ∈ args from h)
    simp only [host.sizeOf_spec]
    omega
  | invoke callee args t =>
    rcases List.mem_cons.mp (show g ∈ callee :: args from h) with rfl | hargs
    · simp only [invoke.sizeOf_spec]
      omega
    · have := List.sizeOf_lt_of_mem hargs
      simp only [invoke.sizeOf_spec]
      omega
  | coerced inner t =>
    obtain rfl := List.mem_singleton.mp (show g ∈ [inner] from h)
    simp only [coerced.sizeOf_spec]
    omega
  | sequence first next =>
    have hg : g = first ∨ g = next := by simpa [parts] using h
    simp only [sequence.sizeOf_spec]
    rcases hg with rfl | rfl <;> omega

/-- What holds of a fragment as soon as it holds of its parts holds of all fragments. -/
@[elab_as_elim]
theorem of_parts {P : Fragment → Prop} (step : ∀ f, (∀ g ∈ f.parts, P g) → P f) (f : Fragment) :
    P f :=
  step f fun g _ => of_parts step g
termination_by sizeOf f
decreasing_by exact sizeOf_lt_of_mem_parts ‹_›

/-- A node with its address in a tree, seen from where the tree is part `i`. -/
def inPart (i : Nat) (x : Address × Fragment) : Address × Fragment :=
  (i :: x.1, x.2)

/-- The nodes of a tree with their addresses, in the order in which they act: those of the parts,
one part after the other, and the node itself at the end. -/
def order (f : Fragment) : List (Address × Fragment) :=
  (f.parts.attach.mapIdx fun i g => g.1.order.map (inPart i)).flatten ++ [([], f)]
termination_by sizeOf f
decreasing_by exact sizeOf_lt_of_mem_parts g.2

/-- The nodes of the parts of a node, each tree after the one before it. -/
def orderAll (fs : List Fragment) : List (Address × Fragment) :=
  (fs.mapIdx fun i g => g.order.map (inPart i)).flatten

theorem order_eq (f : Fragment) : f.order = orderAll f.parts ++ [([], f)] := by
  have hattach : (f.parts.attach.mapIdx fun i g => g.1.order.map (inPart i)) =
      f.parts.mapIdx fun i g => g.order.map (inPart i) := by
    refine List.ext_getElem (by simp) fun i _ _ => ?_
    simp only [List.getElem_mapIdx, List.getElem_attach]
  rw [order, orderAll, hattach]

theorem orderAll_concat (fs : List Fragment) (f : Fragment) :
    orderAll (fs ++ [f]) = orderAll fs ++ f.order.map (inPart fs.length) := by
  rw [orderAll, List.mapIdx_concat, List.flatten_append, List.flatten_singleton]
  rfl

/-- The nodes of the parts, under addresses that say first in which part they are. -/
theorem mem_orderAll {fs : List Fragment} {p : Address} {g : Fragment} :
    (p, g) ∈ orderAll fs ↔ ∃ i q f, p = i :: q ∧ fs[i]? = some f ∧ (q, g) ∈ f.order := by
  simp only [orderAll, List.mem_flatten, List.mem_mapIdx]
  constructor
  · rintro ⟨_, ⟨i, hi, rfl⟩, hmem⟩
    obtain ⟨⟨q, h⟩, hq, hpair⟩ := List.mem_map.mp hmem
    cases hpair
    exact ⟨i, q, fs[i], rfl, List.getElem?_eq_getElem hi, hq⟩
  · rintro ⟨i, q, f, rfl, hf, hq⟩
    obtain ⟨hi, rfl⟩ := List.getElem?_eq_some_iff.mp hf
    exact ⟨_, ⟨i, hi, rfl⟩, List.mem_map_of_mem hq⟩

/-- The nodes that are listed are those that stand in the tree. -/
theorem mem_order {f : Fragment} {p : Address} {g : Fragment} :
    (p, g) ∈ f.order ↔ f.node? p = some g := by
  induction f using of_parts generalizing p with
  | step f ih =>
    rw [order_eq, List.mem_append, mem_orderAll, List.mem_singleton]
    cases p with
    | nil =>
      simp [node?, eq_comm]
    | cons i q =>
      simp only [node?, Option.bind_eq_some_iff]
      constructor
      · rintro (⟨_, _, h, hp, hh, hmem⟩ | hroot)
        · cases hp
          exact ⟨h, hh, (ih h (List.mem_of_getElem? hh)).mp hmem⟩
        · cases hroot
      · rintro ⟨h, hh, hnode⟩
        exact .inl ⟨i, q, h, rfl, hh, (ih h (List.mem_of_getElem? hh)).mpr hnode⟩

theorem pairwise_orderAll {fs : List Fragment}
    (h : ∀ f ∈ fs, (f.order.map Prod.fst).Pairwise Address.Before) :
    ((orderAll fs).map Prod.fst).Pairwise Address.Before := by
  induction fs using List.reverseRecOn with
  | nil => exact List.Pairwise.nil
  | append_singleton fs f ih =>
    rw [orderAll_concat, List.map_append, List.pairwise_append]
    refine ⟨ih fun g hg => h g (List.mem_append_left _ hg), ?_, ?_⟩
    · -- within one part only the rest of the address counts
      have hf := h f (List.mem_append_right _ (List.mem_singleton_self f))
      rw [List.pairwise_map] at hf ⊢
      rw [List.pairwise_map]
      exact hf.imp fun hbefore => .inr ⟨rfl, hbefore⟩
    · intro p hp q hq
      obtain ⟨⟨p, g⟩, hg, rfl⟩ := List.mem_map.mp hp
      obtain ⟨i, p', g', rfl, hg', -⟩ := mem_orderAll.mp hg
      simp only [List.map_map, List.mem_map] at hq
      obtain ⟨x, -, rfl⟩ := hq
      exact .inl (List.getElem?_eq_some_iff.mp hg').1

/-- The nodes act depth first and from left to right, each place in the tree once. -/
theorem pairwise_order (f : Fragment) : (f.order.map Prod.fst).Pairwise Address.Before := by
  induction f using of_parts with
  | step f ih =>
    rw [order_eq, List.map_append, List.pairwise_append]
    refine ⟨pairwise_orderAll ih, List.pairwise_singleton _ _, ?_⟩
    intro p hp q hq
    obtain ⟨⟨p, g⟩, hg, rfl⟩ := List.mem_map.mp hp
    obtain ⟨i, p', g', rfl, -, -⟩ := mem_orderAll.mp hg
    obtain rfl := List.mem_singleton.mp hq
    exact trivial

section Evaluation

variable (call : Body → List Value → Run σ Value) (operands : List Value)

theorem evaluateAll_concat (fs : List Fragment) (f : Fragment) :
    evaluateAll call operands (fs ++ [f]) = (do
      let vs ← evaluateAll call operands fs
      let v ← evaluate call operands f
      pure (vs ++ [v])) := by
  induction fs with
  | nil => simp [evaluateAll]
  | cons g fs ih => simp [evaluateAll, ih]

/-- A fragment is evaluated by evaluating its parts and doing its deed with what they produce. -/
theorem evaluate_eq (f : Fragment) :
    f.evaluate call operands = (do
      let vs ← evaluateAll call operands f.parts
      (f.deed operands vs).run call) := by
  cases f with
  | constant v t => simp [evaluate, evaluateAll, parts, deed, Deed.run]
  | zero t => simp [evaluate, evaluateAll, parts, deed, Deed.run]
  | operand position t =>
    simp only [evaluate, evaluateAll, parts, deed, pure_bind]
    cases operands[position]? <;> rfl
  | raise message t => simp [evaluate, evaluateAll, parts, deed, Deed.run]
  | host name args body t => simp [evaluate, parts, deed, Deed.run]
  | invoke callee args t =>
    simp only [evaluate, evaluateAll, parts, deed, bind_assoc, pure_bind]
    refine bind_congr fun v => bind_congr fun vs => ?_
    cases v <;> rfl
  | coerced inner t =>
    simp only [evaluate, evaluateAll, parts, deed, bind_assoc, pure_bind]
    refine bind_congr fun v => ?_
    rw [show Value.first [v] = v from rfl]
    cases t.admit v <;> rfl
  | sequence first next =>
    simp [evaluate, evaluateAll, parts, deed, Deed.run]

end Evaluation

end Fragment

end Dispatch
