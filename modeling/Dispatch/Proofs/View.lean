import Mathlib.Data.List.Nodup
import Dispatch.Proofs.Shape

/-!
# Resolvers that look at types only

A resolver may look at everything of an operand, its value included. Rules can be used again because
resolvers do not: of an operand they see the limit type and whether it is nil, its *view*, and they
answer as a function of what they are asked (`Resolver.ByView`).

With such a resolver the verdict on a row of operands is a function of the views
(`judge_eq_of_view`), but for the operations whose rules depend on more: storing in a member, where
the host is handed a way to convert the value, and calling a function, where its parameters count.

In the runtime: a `Resolver`, in `bind` of the binders.
-/

namespace Dispatch

/-- What a resolver sees of an operand. -/
structure Operand.View where
  limitType : Ty
  isNil : Bool

def Operand.view (o : Operand) : Operand.View :=
  ⟨o.limitType, o.isNil⟩

open Operand (View view)

/-- A resolver whose answers are functions of what it is asked, and of operands only of their
views. Storing in members and calling functions are left out. -/
structure Resolver.ByView {σ : Type} (r : Resolver σ) : Prop where
  getMember : ∃ f : Ty → MemberName → ReadAnswer, ∀ t m, r.getMember t m = pure (f t m)
  getIndex : ∃ f : View → List View → Resolution,
    ∀ target indexes, r.getIndex target indexes = pure (f target.view (indexes.map view))
  setIndex : ∃ f : View → List View → View → Resolution, ∀ target indexes value,
    r.setIndex target indexes value = pure (f target.view (indexes.map view) value.view)
  invokeMember :
    ∃ f : Ty → CallShape → View → List View → MemberName → Except Refusal (Option Fragment),
      ∀ identity call target args m, r.invokeMember identity call target args m =
        pure (f identity call target.view (args.map view) m)
  binary : ∃ f : BinaryOperator → View → View → Resolution,
    ∀ operator left right, r.binary operator left right = pure (f operator left.view right.view)
  unary : ∃ f : UnaryOperator → View → Resolution,
    ∀ operator operand, r.unary operator operand = pure (f operator operand.view)
  convert : ∃ f : Fragment → Ty → Resolution, ∀ source t, r.convert source t = pure (f source t)

/-- The guard on operands in a row is made from their views. -/
theorem Guard.ofOperands_eq_of_view {us vs : List Operand} (h : us.map view = vs.map view) :
    Guard.ofOperands us = Guard.ofOperands vs := by
  -- the simplest guard on an operand, made from its view
  have hsimple : ∀ os : List Operand, os.mapIdx Guard.simple = (os.map view).mapIdx
      fun i w => Guard.one ⟨i, if w.isNil then .isNil else .typeIs w.limitType⟩ := by
    intro os
    rw [List.mapIdx_eq_iff]
    intro i
    rw [List.getElem?_mapIdx, List.getElem?_map]
    cases os[i]? <;> rfl
  rw [Guard.ofOperands, Guard.ofOperands, hsimple, hsimple, h]

/-- The number of a type says which handle it is, for the exact types of all values in rows of
`V`. -/
def Coherent (V : List Value → Prop) : Prop :=
  ∀ u w, V u → V w → ∀ x ∈ u, ∀ y ∈ w, x.type.id = y.type.id → x.type = y.type

theorem Coherent.mono {V W : List Value → Prop} (h : Coherent W) (hVW : ∀ v, V v → W v) :
    Coherent V :=
  fun u w hu hw => h u w (hVW u hu) (hVW w hw)

/-- Rows of values of some types, of which no two have one number. -/
theorem coherent_of_nodup {types : List Ty} (h : (types.map Ty.id).Nodup) :
    Coherent fun v => ∀ y ∈ v, y.type ∈ types :=
  fun _ _ hu hw y hy z hz hid => List.inj_on_of_nodup_map h (hu y hy) (hw z hz) hid

/-- Values of one mark look alike if the number of a type says which handle it is. -/
theorem Operand.view_known_eq {u v : Value} (hmark : u.mark = v.mark)
    (htype : u.type.id = v.type.id → u.type = v.type) :
    (Operand.known u).view = (Operand.known v).view := by
  unfold Operand.view
  rw [Operand.limitType_known, Operand.limitType_known, Operand.isNil_known, Operand.isNil_known,
    ← Value.isNil_eq_of_mark hmark]
  cases hu : u.isNil with
  | true => rfl
  | false => rw [htype (Value.typeId_eq_of_mark hmark hu)]

/-- Rows of one list of marks look alike. -/
theorem Operand.view_map_known_eq {V : List Value → Prop} (hV : Coherent V) {us vs : List Value}
    (hu : V us) (hv : V vs) (h : us.map Value.mark = vs.map Value.mark) :
    (us.map .known).map view = (vs.map .known).map view := by
  have hlen : us.length = vs.length := by
    rw [← List.length_map (f := Value.mark), h, List.length_map]
  refine List.ext_getElem (by simp only [List.length_map, hlen]) fun i hi hi' => ?_
  simp only [List.length_map] at hi hi'
  simp only [List.getElem_map]
  refine Operand.view_known_eq ?_ (hV us vs hu hv _ (List.getElem_mem hi) _ (List.getElem_mem hi'))
  have hmark := congrArg (·[i]?) h
  simpa [hi, hi'] using hmark

namespace Operation

variable {σ : Type} {s : Scope σ} {op : Operation}

/-- Of nil as the target only setting a member tells the static type. -/
theorem onNil_eq (hset : op.kind ≠ .setMember) (empty : Value) (target target' : Operand) :
    op.onNil empty target = op.onNil empty target' := by
  cases op <;> first | rfl | exact absurd rfl hset

/-- Where nil as the target settles the operation, the verdict is always the same. -/
theorem judge_of_nil (hbinary : op.kind ≠ .binary) (hset : op.kind ≠ .setMember) :
    ∃ verdict, ∀ (target : Operand) (rest : List Operand), target.isNil = true →
      op.judge s (target :: rest) = pure verdict := by
  obtain ⟨verdict, hverdict⟩ : ∃ verdict, op.onNil s.emptyResult (.known .nil) = some verdict :=
    Option.ne_none_iff_exists'.mp fun h => hbinary (onNil_eq_none_iff.mp h)
  refine ⟨verdict, fun target rest hnil => ?_⟩
  rw [judge, if_pos hnil, onNil_eq hset s.emptyResult target (.known .nil), hverdict]

/-- A resolver that goes by views makes the verdict go by views. -/
theorem resolve_eq_of_view (hr : s.resolver.ByView) (hset : op.kind ≠ .setMember)
    (hinvoke : op.kind ≠ .invoke) {target target' : Operand} {rest rest' : List Operand}
    (hn : rest.length + 1 = op.operandCount)
    (hcall : op.kind = .invokeMember → target.callable? = none ∧ target'.callable? = none)
    (ht : target.view = target'.view) (hrest : rest.map view = rest'.map view) :
    ∃ verdict, op.resolve s target rest = pure verdict ∧
      op.resolve s target' rest' = pure verdict := by
  have htype : target.limitType = target'.limitType := congrArg View.limitType ht
  have hone : Guard.ofOperands [target] = Guard.ofOperands [target'] :=
    Guard.ofOperands_eq_of_view (by rw [List.map_singleton, List.map_singleton, ht])
  have hall : Guard.ofOperands (target :: rest) = Guard.ofOperands (target' :: rest') :=
    Guard.ofOperands_eq_of_view (by rw [List.map_cons, List.map_cons, ht, hrest])
  cases op with
  | getMember m =>
    obtain ⟨f, hf⟩ := hr.getMember
    simp only [resolve, hf, pure_bind, ← htype, ← hone]
    cases f target.limitType m <;> exact ⟨_, rfl, rfl⟩
  | setMember m => exact absurd rfl hset
  | getIndex call =>
    obtain ⟨f, hf⟩ := hr.getIndex
    simp only [resolve, hf, pure_bind, ← ht, ← hrest, ← hall]
    exact ⟨_, rfl, rfl⟩
  | setIndex call =>
    obtain ⟨f, hf⟩ := hr.setIndex
    cases rest with
    | nil => exact absurd hn (by rw [operandCount, List.length_nil]; omega)
    | cons index more =>
      cases rest' with
      | nil => exact absurd hrest (List.cons_ne_nil _ _)
      | cons index' more' =>
        -- the value is the last of the row, after the indexes
        have hlast : ((index :: more).getLast (List.cons_ne_nil _ _)).view =
            ((index' :: more').getLast (List.cons_ne_nil _ _)).view := by
          have hsome := congrArg List.getLast? hrest
          rw [List.getLast?_map, List.getLast?_map,
            List.getLast?_eq_some_getLast (List.cons_ne_nil _ _),
            List.getLast?_eq_some_getLast (List.cons_ne_nil _ _)] at hsome
          exact Option.some.inj hsome
        simp only [resolve, hf, pure_bind, List.map_dropLast, ← ht, ← hrest, ← hall, ← hlast]
        exact ⟨_, rfl, rfl⟩
  | invoke call => exact absurd rfl hinvoke
  | invokeMember m call =>
    obtain ⟨f, hf⟩ := hr.invokeMember
    -- no target is a function, so none is called by its own parameters
    obtain ⟨hc, hc'⟩ := hcall rfl
    simp only [resolve, hc, hc', Option.isSome_none, Bool.false_eq_true, if_false, hf, pure_bind,
      ← htype, ← ht, ← hrest, ← hall]
    cases f (s.types.identity target.limitType) call target.view (rest.map view) m with
    | error reason => exact ⟨_, rfl, rfl⟩
    | ok found => cases found <;> exact ⟨_, rfl, rfl⟩
  | binary request =>
    obtain ⟨f, hf⟩ := hr.binary
    cases rest with
    | nil => exact absurd hn (by simp [operandCount])
    | cons right more =>
      cases rest' with
      | nil => exact absurd hrest (List.cons_ne_nil _ _)
      | cons right' more' =>
        have hright : right.view = right'.view := (List.cons.inj hrest).1
        simp only [resolve, hf, pure_bind, ← ht, ← hright, ← hall]
        exact ⟨_, rfl, rfl⟩
  | unary operator =>
    obtain ⟨f, hf⟩ := hr.unary
    simp only [resolve, hf, pure_bind, ← ht, ← hone]
    exact ⟨_, rfl, rfl⟩
  | convert t =>
    obtain ⟨f, hf⟩ := hr.convert
    have hread : target.read 0 = target'.read 0 := congrArg (Fragment.operand 0) htype
    simp only [resolve, hf, pure_bind, ← hread, ← hone]
    split
    next => exact ⟨_, rfl, rfl⟩
    next => exact ⟨_, rfl, rfl⟩

/-- With a resolver that goes by views, rows of one shape get one verdict. -/
theorem judge_eq_of_shape (hr : s.resolver.ByView) (hset : op.kind ≠ .setMember)
    (hinvoke : op.kind ≠ .invoke) {V : List Value → Prop} (hV : Coherent V)
    (hcall : op.kind = .invokeMember → ∀ v, V v → ∀ x, v.head? = some x → x.callable? = none)
    {us vs : List Value} (hu : V us) (hv : V vs) (hn : us.length = op.operandCount)
    (hm : vs.length = op.operandCount) (hshape : op.shape us = op.shape vs) :
    ∃ verdict, op.judge s (us.map .known) = pure verdict ∧
      op.judge s (vs.map .known) = pure verdict := by
  obtain ⟨x, us, rfl⟩ := List.exists_cons_of_length_pos (hn ▸ op.operandCount_pos)
  obtain ⟨y, vs, rfl⟩ := List.exists_cons_of_length_pos (hm ▸ op.operandCount_pos)
  by_cases hc : op.collapses (x :: us) = true
  · obtain ⟨hbinary, hx⟩ := collapses_cons.mp hc
    obtain ⟨-, hy⟩ := collapses_cons.mp (collapses_of_shape hshape hc)
    obtain ⟨verdict, hverdict⟩ := judge_of_nil (s := s) hbinary hset
    exact ⟨verdict, hverdict _ _ hx, hverdict _ _ hy⟩
  · -- neither row is settled by its target, so both are resolved
    have hresolved : ∀ z zs, ¬ op.collapses (z :: zs) = true →
        op.judge s ((z :: zs).map .known) = op.resolve s (.known z) (zs.map .known) := by
      intro z zs hz
      have hnone : (if z.isNil then op.onNil s.emptyResult (.known z) else none) = none := by
        split
        next hnil =>
          rw [onNil_eq_none_iff]
          exact Decidable.byContradiction fun hkind => hz (collapses_cons.mpr ⟨hkind, hnil⟩)
        next => rfl
      rw [List.map_cons, judge, Operand.isNil_known, hnone]
    have hviews := Operand.view_map_known_eq hV hu hv (marks_of_shape hshape hc)
    simp only [List.map_cons, List.cons.injEq] at hviews
    rw [hresolved x us hc, hresolved y vs fun h => hc (collapses_of_shape hshape.symm h)]
    exact resolve_eq_of_view hr hset hinvoke (by rw [List.length_map]; exact hn)
      (fun h => ⟨hcall h _ hu x rfl, hcall h _ hv y rfl⟩) hviews.1 hviews.2

end Operation

end Dispatch
