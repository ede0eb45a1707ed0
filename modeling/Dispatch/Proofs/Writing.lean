import Mathlib.Data.List.Basic
import Dispatch.Proofs.SmallHost

/-!
# Storing in members

A resolver that is asked to store in a member does not get the value, only a way to have it
converted. So what it does is an *inquiry*: it answers, or it has the value converted to some type
and goes on with what came of that. Its answer is decided by the type of the target, the member, and
what conversions come to (`written`).

The rule of a write that succeeds is guarded by the types of target and value. That of a refusal is
guarded by the type of the target alone, although the resolver may have refused because of the
value. So a call site is transparent just if it keeps no rules, or if a refusal never is because of
the value (`writing_transparent_iff`).

In the runtime: `SetMemberBinder.bind` and its `convert_value`, replayed by `CallSite.execute`.
-/

namespace Dispatch

variable {σ : Type}

/-- What a resolver does about a write: it answers, or it has the value converted and goes on. -/
inductive Inquiry where
  | answer (a : WriteAnswer)
  | ask (t : Ty) (next : Resolution → Inquiry)

namespace Inquiry

/-- Carries out an inquiry with conversions that act. -/
def run (convert : Ty → Act σ Resolution) : Inquiry → Act σ WriteAnswer
  | answer a => pure a
  | ask t next => do (next (← convert t)).run convert

/-- What an inquiry comes to where conversions are a function. -/
def decide (convert : Ty → Resolution) : Inquiry → WriteAnswer
  | answer a => a
  | ask t next => (next (convert t)).decide convert

theorem run_pure (convert : Ty → Resolution) (i : Inquiry) :
    i.run (fun t => (pure (convert t) : Act σ Resolution)) = pure (i.decide convert) := by
  induction i with
  | answer a => rfl
  | ask t next ih => rw [run, decide, pure_bind, ih]

end Inquiry

/-- A resolver that goes about writes by inquiry, and whose conversions are a function. -/
structure Resolver.Inquires (r : Resolver σ) (inquiry : Ty → MemberName → Inquiry)
    (conversion : Fragment → Ty → Resolution) : Prop where
  setMember : ∀ t m converted, r.setMember t m converted = (inquiry t m).run converted
  convert : ∀ source t, r.convert source t = pure (conversion source t)

/-- Whether an answer is that there is no way to write. -/
def WriteAnswer.isRefusal : WriteAnswer → Bool
  | resolved _ => false
  | notWritable | notFound => true

/-- The verdict on a write that an answer means. -/
def WriteAnswer.verdict (m : MemberName) (target value : Value) : WriteAnswer → Verdict
  | resolved f => .performed ⟨f.returning .object, .ofOperands [.known target, .known value]⟩
  | notWritable => (Operation.setMember m).refuse (.unwritable target.type.name m.name)
    (.ofOperands [.known target])
  | notFound => (Operation.setMember m).refuse (.notFound target.type.name m.name)
    (.ofOperands [.known target])

section Verdicts

variable (inquiry : Ty → MemberName → Inquiry) (conversion : Fragment → Ty → Resolution)
  (m : MemberName)

/-- The value to store as a member of type `t` needs it. -/
def conversionFor (value : Operand) (t : Ty) : Resolution :=
  let source := value.read 1
  if t.isObject || source.type == t then .ok source else conversion source t

/-- What the resolver answers about a write to a target other than nil. -/
def written (target value : Value) : WriteAnswer :=
  (inquiry target.type m).decide (conversionFor conversion (.known value))

/-- The verdict on a write of the second value to a member of the first. -/
def writeVerdict : List Value → Verdict
  | target :: value :: _ =>
    if target.isNil then
      (Operation.setMember m).refuse (.notResolved Ty.object.name m.name) (.isNil 0)
    else (written inquiry conversion m target value).verdict m target value
  | _ => .refused default

/-- The code for a write of the second value to a member of the first. -/
def writeCode (row : List Value) : Fragment :=
  ((writeVerdict inquiry conversion m row).rule none).fragment

/-- If a write is refused, then all writes to a target of that type come to the same code: no
refusal is because of the value. -/
def RefusesByTarget (V : List Value → Prop) : Prop :=
  ∀ target value target' value', V [target, value] → V [target', value'] →
    target.isNil = false → target'.isNil = false → target.type.id = target'.type.id →
    (written inquiry conversion m target value).isRefusal = true →
    writeCode inquiry conversion m [target, value] =
      writeCode inquiry conversion m [target', value']

end Verdicts

variable {inquiry : Ty → MemberName → Inquiry} {conversion : Fragment → Ty → Resolution}
  {m : MemberName}

theorem writeVerdict_of_nil {target value : Value} (hnil : target.isNil = true) :
    writeVerdict inquiry conversion m [target, value] =
      (Operation.setMember m).refuse (.notResolved Ty.object.name m.name) (.isNil 0) :=
  if_pos hnil

theorem writeVerdict_of_not_nil {target value : Value} (hnil : target.isNil = false) :
    writeVerdict inquiry conversion m [target, value] =
      (written inquiry conversion m target value).verdict m target value :=
  if_neg (by rw [hnil]; exact Bool.false_ne_true)

/-- With a resolver that inquires the verdict on a write is the one of its answer. -/
theorem judge_setMember {s : Scope σ} (hr : s.resolver.Inquires inquiry conversion)
    (target value : Value) :
    (Operation.setMember m).judge s [.known target, .known value] =
      pure (writeVerdict inquiry conversion m [target, value]) := by
  have hconverted : Operation.converted s.resolver (.known value) =
      fun t => pure (conversionFor conversion (.known value) t) := by
    funext t
    rw [Operation.converted, conversionFor]
    split
    next => rfl
    next => exact hr.convert _ t
  rw [Operation.judge, Operand.isNil_known]
  cases hnil : target.isNil with
  | true =>
    -- nil settles the write before the resolver is asked
    rw [writeVerdict_of_nil hnil]
    rfl
  | false =>
    have htype : (Operand.known target).limitType = target.type := by
      rw [Operand.limitType_known, hnil]
      rfl
    rw [writeVerdict_of_not_nil hnil]
    simp only [Bool.false_eq_true, if_false, Operation.resolve, htype, hr.setMember, hconverted,
      Inquiry.run_pure, pure_bind, written]
    cases (inquiry target.type m).decide (conversionFor conversion (.known value)) <;> rfl

/-- Writes of like values to like targets come to the same code. -/
theorem writeCode_eq_of_marks {V : List Value → Prop} (hV : Coherent V)
    {target value target' value' : Value} (hu : V [target, value]) (hw : V [target', value'])
    (ht : target.mark = target'.mark) (hv : value.mark = value'.mark) :
    writeCode inquiry conversion m [target, value] =
      writeCode inquiry conversion m [target', value'] := by
  unfold writeCode
  have hsame := Value.isNil_eq_of_mark ht
  cases hnil : target.isNil with
  | true => rw [writeVerdict_of_nil hnil, writeVerdict_of_nil (hsame ▸ hnil)]
  | false =>
    have htype : target.type = target'.type :=
      hV _ _ hu hw target (by simp) target' (by simp) (Value.typeId_eq_of_mark ht hnil)
    have hview : (Operand.known value).view = (Operand.known value').view :=
      Operand.view_known_eq hv (hV _ _ hu hw value (by simp) value' (by simp))
    have hlimit : (Operand.known value).limitType = (Operand.known value').limitType :=
      congrArg Operand.View.limitType hview
    have hwritten : written inquiry conversion m target value =
        written inquiry conversion m target' value' := by
      have hread : (Operand.known value).read 1 = (Operand.known value').read 1 :=
        congrArg (Fragment.operand 1) hlimit
      have hconversion : conversionFor conversion (.known value) =
          conversionFor conversion (.known value') := by
        funext t
        rw [conversionFor, conversionFor, hread]
      rw [written, written, htype, hconversion]
    rw [writeVerdict_of_not_nil hnil, writeVerdict_of_not_nil (hsame ▸ hnil), hwritten]
    cases written inquiry conversion m target' value' with
    | resolved f => rfl
    | notWritable => rw [WriteAnswer.verdict, WriteAnswer.verdict, htype]; rfl
    | notFound => rw [WriteAnswer.verdict, WriteAnswer.verdict, htype]; rfl

theorem applies_of_nil {target value target' value' : Value} (hnil : target.isNil = true) :
    ((writeVerdict inquiry conversion m [target, value]).rule none).applies [target', value'] =
      target'.isNil := by
  rw [writeVerdict_of_nil hnil]
  exact Operation.check_isNil_cons target' [value']

/-- The rule of a write that is refused is for all writes to targets of the type. -/
theorem applies_of_refusal {target value target' value' : Value} (hnil : target.isNil = false)
    (hrefusal : (written inquiry conversion m target value).isRefusal = true) :
    ((writeVerdict inquiry conversion m [target, value]).rule none).applies [target', value'] = true
      ↔ target.mark = target'.mark := by
  rw [writeVerdict_of_not_nil hnil]
  cases hwritten : written inquiry conversion m target value with
  | resolved f => rw [hwritten] at hrefusal; exact absurd hrefusal Bool.false_ne_true
  | notWritable => exact Guard.check_ofOperands_singleton
  | notFound => exact Guard.check_ofOperands_singleton

/-- The rule of a write that succeeds is for like writes. -/
theorem applies_of_success {target value target' value' : Value} (hnil : target.isNil = false)
    (hsuccess : (written inquiry conversion m target value).isRefusal = false) :
    ((writeVerdict inquiry conversion m [target, value]).rule none).applies [target', value'] = true
      ↔ target.mark = target'.mark ∧ value.mark = value'.mark := by
  rw [writeVerdict_of_not_nil hnil]
  cases hwritten : written inquiry conversion m target value with
  | resolved f =>
    have hmarks : [value].map Value.mark = [value'].map Value.mark ↔ value.mark = value'.mark := by
      rw [List.map_singleton, List.map_singleton, List.singleton_inj]
    rw [← hmarks]
    exact @Guard.check_ofOperands_cons target target' [value] [value'] rfl
  | notWritable => rw [hwritten] at hsuccess; exact absurd hsuccess.symm Bool.false_ne_true
  | notFound => rw [hwritten] at hsuccess; exact absurd hsuccess.symm Bool.false_ne_true

namespace Engine

variable {host : Host σ} {index : Nat} {e : Engine σ} {s : Site} {x : Backdrop}
  {V : List Value → Prop}

/-- Rules for writes replay soundly if no refusal is because of the value. -/
theorem sound_of_refusesByTarget (hV : Coherent V)
    (h : RefusesByTarget inquiry conversion m V) :
    Sound 2 V fun v => (writeVerdict inquiry conversion m v).rule none := by
  intro u w hu hw hun hwn happlies
  obtain ⟨target, value, rfl⟩ := List.length_eq_two.mp hun
  obtain ⟨target', value', rfl⟩ := List.length_eq_two.mp hwn
  cases hnil : target.isNil with
  | true =>
    rw [applies_of_nil hnil] at happlies
    show writeCode inquiry conversion m [target, value] =
      writeCode inquiry conversion m [target', value']
    rw [writeCode, writeCode, writeVerdict_of_nil hnil, writeVerdict_of_nil happlies]
  | false =>
    cases hanswer : (written inquiry conversion m target value).isRefusal with
    | true =>
      -- the guard of a refusal says nothing of the value, so this is what is assumed
      have hmark : target.mark = target'.mark := (applies_of_refusal hnil hanswer).mp happlies
      exact h target value target' value' hu hw hnil (Value.isNil_eq_of_mark hmark ▸ hnil)
        (Value.typeId_eq_of_mark hmark hnil) hanswer
    | false =>
      obtain ⟨htarget, hvalue⟩ := (applies_of_success hnil hanswer).mp happlies
      exact writeCode_eq_of_marks hV hu hw htarget hvalue

/-- A call site for writes is transparent just if it keeps no rules, or if no refusal is because of
the value. -/
theorem writing_transparent_iff (h : Unused index s x e) (hop : x.operation = .setMember m)
    (hr : (host.resolver s.binder.dispatcher).Inquires inquiry conversion) (hV : Coherent V)
    (hc : Courteous host index s.binder V) :
    Transparent host index s.binder 2 V e ↔
      s.maxRules = 0 ∨ RefusesByTarget inquiry conversion m V := by
  have hcount : x.operation.operandCount = 2 := by rw [hop, Operation.operandCount]
  have hj : Settles host s.binder x V (writeVerdict inquiry conversion m) := by
    intro v _ hn
    rw [hcount] at hn
    obtain ⟨target, value, rfl⟩ := List.length_eq_two.mp hn
    rw [hop]
    exact judge_setMember hr target value
  rw [← hcount]
  constructor
  · intro ht
    by_cases hlimit : s.maxRules = 0
    · exact .inl hlimit
    · refine .inr fun target value target' value' hu hw hnil hnil' hid hrefusal => ?_
      have happlies : ∀ {y z : Value}, y.isNil = false → target.type.id = y.type.id →
          ((writeVerdict inquiry conversion m [target, value]).rule none).applies [y, z] =
            true := by
        intro y z hy hyid
        exact (applies_of_refusal hnil hrefusal).mpr (Value.mark_eq_of_typeId hnil hy hyid)
      -- a refusal raises, and raising does nothing to the call site
      have hquiet : Run.Within (Aside index s.binder)
          (((writeVerdict inquiry conversion m [target, value]).rule none).run (call host)
            [target, value]) := by
        intro e
        rw [writeVerdict_of_not_nil hnil]
        cases hwritten : written inquiry conversion m target value with
        | resolved f => rw [hwritten] at hrefusal; exact absurd hrefusal Bool.false_ne_true
        | notWritable => exact Aside.refl e
        | notFound => exact Aside.refl e
      exact fragment_eq_of_transparent h hj hlimit hu hw (by rw [hcount]; rfl)
        (by rw [hcount]; rfl) (happlies hnil rfl) (happlies hnil' hid) hquiet ht
  · rintro (hlimit | hrefuses)
    · exact transparent_of_sound h hc hj (.inl hlimit)
    · exact transparent_of_sound h hc hj (.inr (hcount ▸ sound_of_refusesByTarget hV hrefuses))

end Engine

section Points

/-- How the small resolver goes about a write. -/
def smallInquiry (t : Ty) (m : MemberName) : Inquiry :=
  .ask .integer fun
    | .ok value =>
      .answer (.resolved (.host (m.name ++ "=") [.operand 0 t, value] (.native 0) .void))
    | .error _ => .answer .notWritable

/-- What the small resolver answers about conversions. -/
def smallConversion (source : Fragment) (t : Ty) : Resolution :=
  .error (.noConversion source.type.name t.name)

theorem smallResolver_inquires :
    (smallResolver : Resolver σ).Inquires smallInquiry smallConversion where
  setMember t m converted := by
    refine bind_congr fun answer => ?_
    cases answer <;> rfl
  convert _ _ := rfl

/-- The type of points. -/
def pointType : Ty :=
  .plain 256 "Point" "Test.Point" .record

/-- A point, whose members take integers. -/
def point : Value :=
  .object ⟨⟨1⟩, pointType⟩

/-- Rows of a point and a value of one of some types. -/
def Storing (types : List Ty) (v : List Value) : Prop :=
  ∃ y, v = [point, y] ∧ y.type ∈ types

theorem coherent_storing {types : List Ty} (h : ((pointType :: types).map Ty.id).Nodup) :
    Coherent (Storing types) := by
  refine (coherent_of_nodup h).mono ?_
  rintro _ ⟨y, rfl, hy⟩ z hz
  simp only [List.mem_cons, List.not_mem_nil, or_false] at hz
  rcases hz with rfl | rfl
  · exact List.mem_cons_self ..
  · exact List.mem_cons_of_mem _ hy

/-- Where only integers are stored, nothing is refused. -/
theorem writing_transparent_integers :
    Engine.Transparent smallHost 0 ⟨0, 0⟩ 2 (fun v => ∃ i, v = [point, .integer i])
      (smallEngine (.setMember ⟨"x", false⟩) 4) := by
  have hV : Coherent fun v => ∃ i, v = [point, .integer i] := by
    refine (coherent_storing (by decide : ([pointType, .integer].map Ty.id).Nodup)).mono ?_
    rintro _ ⟨i, rfl⟩
    exact ⟨_, rfl, List.mem_cons_self ..⟩
  refine (Engine.writing_transparent_iff (Engine.unused_smallEngine (.setMember ⟨"x", false⟩) 4) rfl
    smallResolver_inquires hV (Engine.smallHost_courteous _ _ _)).mpr (.inr ?_)
  rintro target value target' value' ⟨i, hrow⟩ - - - - hrefusal
  cases hrow
  cases hrefusal

/-- A text cannot be stored, and after that nothing can. -/
theorem not_transparent_after_refusal :
    (smallResolver : Resolver (Engine Unit)).Inquires smallInquiry smallConversion ∧
    Coherent (Storing [.text, .integer]) ∧
    Engine.outcomes smallHost 0 (smallEngine (.setMember ⟨"x", false⟩) 4)
        [.execute [point, .integer 5]] = [.ok (some (.ok .nil))] ∧
    Engine.outcomes smallHost 0 (smallEngine (.setMember ⟨"x", false⟩) 4)
        [.execute [point, .text "five"], .execute [point, .integer 5]] =
      [.ok (some (.error (.raised "cannot write member 'x' of type 'Point'"))),
        .ok (some (.error (.raised "cannot write member 'x' of type 'Point'")))] ∧
    ¬ Engine.Transparent smallHost 0 ⟨0, 0⟩ 2 (Storing [.text, .integer])
      (smallEngine (.setMember ⟨"x", false⟩) 4) := by
  have htext : Storing [.text, .integer] [point, .text "five"] :=
    ⟨_, rfl, List.mem_cons_self ..⟩
  have hinteger : Storing [.text, .integer] [point, .integer 5] :=
    ⟨_, rfl, List.mem_cons_of_mem _ (List.mem_cons_self ..)⟩
  refine ⟨smallResolver_inquires, coherent_storing (by decide), rfl, rfl, ?_⟩
  exact Engine.not_transparent_of_kept ⟨htext, rfl⟩ ⟨hinteger, rfl⟩ rfl rfl (fun h => nomatch h)

end Points

end Dispatch
