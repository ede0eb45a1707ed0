import Dispatch.Binding.Verdict

/-!
# The shapes of operands

All that the simplest guards see of a value is its *mark*: that it is nil, or else the number of its
exact type. The guard made for a row of operands holds on another row of that length just if the
marks are the same (`check_ofOperands_known`).

Most operations settle nil as the target without looking any further, so for them all rows with a
nil target have one *shape*; otherwise the shape of a row is its marks. `guardOn` is the guard that
goes with a shape: it holds on the rows of that shape and on no others (`check_guardOn`).

Guards are compared by what they check and types by number. Guards that are equal in this sense hold
on the same rows (`check_eq_of_beq`).

In the runtime: `Guard.simple` and `signature_guard`.
-/

namespace Dispatch

/-- What the simplest guards see of a value: that it is nil, or the number of its type. -/
def Value.mark (v : Value) : Option UInt32 :=
  if v.isNil then none else some v.type.id

namespace Value

theorem mark_eq_none {v : Value} : v.mark = none ↔ v.isNil = true := by
  unfold mark
  split <;> simp_all

theorem mark_eq_some {v : Value} {id : UInt32} :
    v.mark = some id ↔ v.isNil = false ∧ v.type.id = id := by
  unfold mark
  split <;> simp_all

theorem isNil_eq_of_mark {u v : Value} (h : u.mark = v.mark) : u.isNil = v.isNil := by
  rw [Bool.eq_iff_iff, ← mark_eq_none, ← mark_eq_none, h]

theorem typeId_eq_of_mark {u v : Value} (h : u.mark = v.mark) (hu : u.isNil = false) :
    u.type.id = v.type.id := by
  have hmark : u.mark = some u.type.id := mark_eq_some.mpr ⟨hu, rfl⟩
  rw [h] at hmark
  exact (mark_eq_some.mp hmark).2.symm

theorem mark_eq_of_typeId {u v : Value} (hu : u.isNil = false) (hv : v.isNil = false)
    (hid : u.type.id = v.type.id) : u.mark = v.mark := by
  rw [mark_eq_some.mpr ⟨hu, rfl⟩, mark_eq_some.mpr ⟨hv, hid.symm⟩]

end Value

@[simp] theorem Operand.isNil_known (v : Value) : (Operand.known v).isNil = v.isNil := rfl

@[simp] theorem Operand.callable?_known (v : Value) : (Operand.known v).callable? = v.callable? :=
  rfl

theorem Operand.limitType_known (v : Value) :
    (Operand.known v).limitType = if v.isNil then .object else v.type := rfl

/-- The simplest check for one value passes on another just if they have one mark. -/
theorem Check.test_of_known (i : Nat) (u v : Value) :
    (Check.of i (.known u)).test.passes v = true ↔ u.mark = v.mark := by
  rw [Check.of, Operand.isNil_known, Operand.limitType_known]
  cases hu : u.isNil with
  | true =>
    rw [if_pos rfl, Value.mark_eq_none.mpr hu, @eq_comm _ none, Value.mark_eq_none]
    rfl
  | false =>
    rw [if_neg Bool.false_ne_true, if_neg Bool.false_ne_true,
      Value.mark_eq_some.mpr ⟨hu, rfl⟩, @eq_comm _ (some u.type.id), Value.mark_eq_some]
    show (!v.isNil && v.type == u.type) = true ↔ _
    rw [Bool.and_eq_true, Bool.not_eq_true', Ty.beq_iff]

/-- The simplest check for a value passes on a row just if the value in its place has the mark. -/
theorem Check.passes_of_known {i : Nat} {u v : Value} {vs : List Value} (hv : vs[i]? = some v) :
    (Check.of i (.known u)).passes vs = true ↔ u.mark = v.mark := by
  rw [passes, show (Check.of i (.known u)).operand = i from rfl, hv, Option.any_some,
    test_of_known]

/-- The simplest checks for values of one mark are equal. -/
theorem Check.of_known_beq {u v : Value} (h : u.mark = v.mark) (i : Nat) :
    (Check.of i (.known u) == Check.of i (.known v)) = true := by
  refine Check.beq_iff.mpr ⟨rfl, ?_⟩
  have htest : ∀ w : Value, (Check.of i (.known w)).test =
      if w.isNil then .isNil else .typeIs (if w.isNil then .object else w.type) := fun _ => rfl
  rw [htest, htest]
  rw [← Value.isNil_eq_of_mark h]
  by_cases hu : u.isNil = true
  · rw [if_pos hu, if_pos hu]
    rfl
  · rw [if_neg hu, if_neg hu, if_neg hu, if_neg hu]
    exact Ty.beq_iff.mpr (Value.typeId_eq_of_mark h (Bool.eq_false_iff.mpr hu))

namespace Guard

/-- Merged one after the other, checks that are all different are all kept. -/
theorem foldl_merge_one {cs : List Check} (seen : List Check)
    (h : (seen ++ cs).Pairwise fun c d => (c == d) = false) :
    (cs.map one).foldl merge (ofChecks seen) = ofChecks (seen ++ cs) := by
  induction cs generalizing seen with
  | nil => rw [List.map_nil, List.foldl_nil, List.append_nil]
  | cons c cs ih =>
    -- each merge adds the next check, which was not seen
    have hassoc : seen ++ c :: cs = (seen ++ [c]) ++ cs := by
      rw [List.append_assoc, List.singleton_append]
    rw [hassoc] at h ⊢
    have hmerge : (ofChecks seen).merge (one c) = ofChecks (seen ++ [c]) := by
      rw [merge, checks_ofChecks]
      exact congrArg ofChecks (firsts_of_distinct [] (List.pairwise_append.mp h).1)
    rw [List.map_cons, List.foldl_cons, hmerge, ih (seen ++ [c]) h]

/-- The checks on operands in a row are all different, as they are on different operands. -/
theorem pairwise_mapIdx_of (os : List Operand) :
    (os.mapIdx Check.of).Pairwise fun c d => (c == d) = false := by
  rw [List.pairwise_iff_getElem]
  intro i j hi hj hij
  rw [List.getElem_mapIdx, List.getElem_mapIdx, Bool.eq_false_iff]
  exact fun h => Nat.ne_of_lt hij (Check.beq_iff.mp h).1

/-- The guard on operands in a row has the simplest check on each. -/
theorem ofOperands_eq (os : List Operand) : ofOperands os = ofChecks (os.mapIdx Check.of) := by
  have hsimple : os.mapIdx simple = (os.mapIdx Check.of).map one := by
    rw [List.mapIdx_eq_iff]
    intro i
    rw [List.getElem?_map, List.getElem?_mapIdx]
    cases os[i]? <;> rfl
  rw [ofOperands, hsimple]
  exact foldl_merge_one [] (pairwise_mapIdx_of os)

/-- The guard on operands in a row asks for the simplest check on each. -/
theorem check_ofOperands (os : List Operand) (operands : List Value) :
    (ofOperands os).check operands = true ↔
      ∀ i o, os[i]? = some o → (Check.of i o).passes operands = true := by
  rw [ofOperands_eq, check, checks_ofChecks, List.all_eq_true]
  constructor
  · intro h i o ho
    obtain ⟨hi, rfl⟩ := List.getElem?_eq_some_iff.mp ho
    exact h _ (List.mem_mapIdx.mpr ⟨i, hi, rfl⟩)
  · intro h c hc
    obtain ⟨i, hi, rfl⟩ := List.mem_mapIdx.mp hc
    exact h i _ (List.getElem?_eq_getElem hi)

/-- The guard made for a row of values holds on a row of that length just if the marks agree. -/
theorem check_ofOperands_known {us vs : List Value} (hlen : us.length = vs.length) :
    (ofOperands (us.map .known)).check vs = true ↔ us.map Value.mark = vs.map Value.mark := by
  -- position by position
  have hpass : ∀ {i : Nat} (hu : i < us.length) (hv : i < vs.length),
      (Check.of i (.known us[i])).passes vs = true ↔ us[i].mark = vs[i].mark :=
    fun _ hv => Check.passes_of_known (List.getElem?_eq_getElem hv)
  rw [check_ofOperands]
  constructor
  · intro h
    refine List.ext_getElem (by rw [List.length_map, List.length_map, hlen]) fun i hi hi' => ?_
    rw [List.length_map] at hi hi'
    rw [List.getElem_map, List.getElem_map]
    refine (hpass hi hi').mp (h i _ ?_)
    rw [List.getElem?_map, List.getElem?_eq_getElem hi, Option.map_some]
  · intro h i o ho
    rw [List.getElem?_map, Option.map_eq_some_iff] at ho
    obtain ⟨u, hu, rfl⟩ := ho
    obtain ⟨hi, rfl⟩ := List.getElem?_eq_some_iff.mp hu
    refine (hpass hi (hlen ▸ hi)).mpr ?_
    have hmark := congrArg (·[i]?) h
    simpa [hi, hlen ▸ hi] using hmark

/-- Checks made position by position from rows of one list of marks are equal. -/
theorem mapIdx_beq_of_marks {f g : Nat → Value → Check} {us vs : List Value}
    (hfg : ∀ i u v, u.mark = v.mark → (f i u == g i v) = true)
    (h : us.map Value.mark = vs.map Value.mark) : (us.mapIdx f == vs.mapIdx g) = true := by
  induction us generalizing vs f g with
  | nil =>
    cases vs with
    | nil => rfl
    | cons v vs => exact absurd h.symm (List.cons_ne_nil _ _)
  | cons u us ih =>
    cases vs with
    | nil => exact absurd h (List.cons_ne_nil _ _)
    | cons v vs =>
      rw [List.map_cons, List.map_cons, List.cons.injEq] at h
      rw [List.mapIdx_cons, List.mapIdx_cons, List.cons_beq_cons, Bool.and_eq_true]
      exact ⟨hfg 0 u v h.1, ih (fun i => hfg (i + 1)) h.2⟩

theorem check_ofOperands_cons {u v : Value} {us vs : List Value} (hlen : us.length = vs.length) :
    (ofOperands ((u :: us).map .known)).check (v :: vs) = true ↔
      u.mark = v.mark ∧ us.map Value.mark = vs.map Value.mark := by
  rw [check_ofOperands_known (by rw [List.length_cons, List.length_cons, hlen]), List.map_cons,
    List.map_cons, List.cons.injEq]

theorem check_ofOperands_singleton {u v : Value} {vs : List Value} :
    (ofOperands [.known u]).check (v :: vs) = true ↔ u.mark = v.mark := by
  show ((Check.of 0 (.known u)).test.passes v && true) = true ↔ _
  rw [Bool.and_true, Check.test_of_known]

/-- What equal checks share, all of one list of checks have just if all of an equal list have it. -/
theorem all_eq_of_beq {p : Check → Bool} (hp : ∀ {c d : Check}, (c == d) = true → p c = p d)
    {cs ds : List Check} (h : (cs == ds) = true) : cs.all p = ds.all p := by
  induction cs generalizing ds with
  | nil =>
    cases ds with
    | nil => rfl
    | cons d ds => exact absurd h Bool.false_ne_true
  | cons c cs ih =>
    cases ds with
    | nil => exact absurd h Bool.false_ne_true
    | cons d ds =>
      rw [List.cons_beq_cons, Bool.and_eq_true] at h
      rw [List.all_cons, List.all_cons, hp h.1, ih h.2]

theorem checks_beq_of_beq {g h : Guard} (he : (g == h) = true) : (g.checks == h.checks) = true := by
  cases g <;> cases h <;> simp_all [BEq.beq, instBEqGuard.beq, checks, List.beq]

theorem ofChecks_beq {cs ds : List Check} (h : (cs == ds) = true) :
    (ofChecks cs == ofChecks ds) = true := by
  match cs, ds with
  | [], [] => rfl
  | [], _ :: _ => exact absurd h Bool.false_ne_true
  | _ :: _, [] => exact absurd h Bool.false_ne_true
  | [c], [d] =>
    rw [List.cons_beq_cons, Bool.and_eq_true] at h
    exact h.1
  | [_], _ :: _ :: _ => simp at h
  | _ :: _ :: _, [_] => simp at h
  | _ :: _ :: _, _ :: _ :: _ => exact h

/-- Equal guards hold on the same operand values. -/
theorem check_eq_of_beq {g h : Guard} (he : (g == h) = true) (operands : List Value) :
    g.check operands = h.check operands :=
  all_eq_of_beq (fun h => Check.passes_eq_of_beq h operands) (checks_beq_of_beq he)

end Guard

namespace Operation

/-- Whether nil as the target settles the operation, whatever the other operands are. -/
def collapses (op : Operation) (operands : List Value) : Bool :=
  op.kind ≠ .binary && operands.head?.any Value.isNil

/-- What the operation tells rows of operands apart by: nothing if nil as the target settles it, and
otherwise the marks. -/
def shape (op : Operation) (operands : List Value) : List (Option UInt32) :=
  if op.collapses operands then [none] else operands.map Value.mark

/-- The guard that goes with the shape of a row of operands. -/
def guardOn (op : Operation) (operands : List Value) : Guard :=
  if op.collapses operands then .isNil 0 else .ofOperands (operands.map .known)

variable {op : Operation}

/-- Nil as the target settles any operation but a binary one. -/
theorem onNil_eq_none_iff {empty : Value} {target : Operand} :
    op.onNil empty target = none ↔ op.kind = .binary := by
  cases op <;> simp [onNil, kind]

theorem collapses_cons {v : Value} {vs : List Value} :
    op.collapses (v :: vs) = true ↔ op.kind ≠ .binary ∧ v.isNil = true := by
  simp [collapses]

theorem check_isNil_cons (v : Value) (vs : List Value) :
    (Guard.isNil 0).check (v :: vs) = v.isNil := by
  show (v.isNil && true) = _
  rw [Bool.and_true]

/-- Nil as the target settles the operation on all rows of a shape or on none. -/
theorem collapses_of_shape {us vs : List Value} (h : op.shape us = op.shape vs)
    (hc : op.collapses us = true) : op.collapses vs = true := by
  by_cases hcv : op.collapses vs = true
  · exact hcv
  · -- the marks of the other row would start with the one for nil
    rw [shape, shape, if_pos hc, if_neg hcv] at h
    cases us with
    | nil => simp [collapses] at hc
    | cons u us =>
      cases vs with
      | nil => exact absurd h (List.cons_ne_nil _ _)
      | cons v vs =>
        have hv : v.isNil = true := Value.mark_eq_none.mp (List.cons.inj h).1.symm
        exact collapses_cons.mpr ⟨(collapses_cons.mp hc).1, hv⟩

/-- Where nil as the target does not settle the operation, the shape is the marks. -/
theorem marks_of_shape {us vs : List Value} (h : op.shape us = op.shape vs)
    (hc : ¬ op.collapses us = true) : us.map Value.mark = vs.map Value.mark := by
  have hcv : ¬ op.collapses vs = true := fun hcv => hc (collapses_of_shape h.symm hcv)
  rwa [shape, shape, if_neg hc, if_neg hcv] at h

/-- A guard that goes with a shape holds on the rows of that shape and on no others. -/
theorem check_guardOn {us vs : List Value} (hu : us ≠ []) (hlen : us.length = vs.length) :
    (op.guardOn us).check vs = true ↔ op.shape us = op.shape vs := by
  obtain ⟨u, us, rfl⟩ := List.exists_cons_of_ne_nil hu
  obtain ⟨v, vs, rfl⟩ := List.exists_cons_of_length_pos
    (show 0 < vs.length by rw [← hlen]; exact Nat.succ_pos _)
  unfold guardOn
  by_cases hcu : op.collapses (u :: us) = true
  · rw [if_pos hcu, check_isNil_cons]
    constructor
    · intro hv
      have hcv : op.collapses (v :: vs) = true :=
        collapses_cons.mpr ⟨(collapses_cons.mp hcu).1, hv⟩
      rw [shape, shape, if_pos hcu, if_pos hcv]
    · intro h
      exact (collapses_cons.mp (collapses_of_shape h hcu)).2
  · rw [if_neg hcu, Guard.check_ofOperands_known hlen]
    constructor
    · intro h
      have hcv : ¬ op.collapses (v :: vs) = true := by
        intro hcv
        obtain ⟨hkind, hv⟩ := collapses_cons.mp hcv
        -- a nil target would leave the same mark on the other row
        refine hcu (collapses_cons.mpr ⟨hkind, Value.mark_eq_none.mp ?_⟩)
        exact (List.cons.inj h).1.trans (Value.mark_eq_none.mpr hv)
      rw [shape, shape, if_neg hcu, if_neg hcv, h]
    · intro h
      exact marks_of_shape h hcu

theorem check_guardOn_self {us : List Value} (hu : us ≠ []) : (op.guardOn us).check us = true :=
  (check_guardOn hu rfl).mpr rfl

/-- Guards that go with one shape are equal. -/
theorem guardOn_beq_of_shape {us vs : List Value} (h : op.shape us = op.shape vs) :
    (op.guardOn us == op.guardOn vs) = true := by
  unfold guardOn
  by_cases hc : op.collapses us = true
  · rw [if_pos hc, if_pos (collapses_of_shape h hc)]
    rfl
  · rw [if_neg hc, if_neg fun hcv => hc (collapses_of_shape h.symm hcv), Guard.ofOperands_eq,
      Guard.ofOperands_eq]
    have hknown : ∀ ws : List Value,
        (ws.map .known).mapIdx Check.of = ws.mapIdx fun i w => Check.of i (.known w) := by
      intro ws
      rw [List.mapIdx_eq_iff]
      intro i
      rw [List.getElem?_mapIdx, List.getElem?_map]
      cases ws[i]? <;> rfl
    refine Guard.ofChecks_beq ?_
    rw [hknown, hknown]
    exact Guard.mapIdx_beq_of_marks (fun i u v hmark => Check.of_known_beq hmark i)
      (marks_of_shape h hc)

end Operation

end Dispatch
