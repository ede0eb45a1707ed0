import Dispatch.Proofs.Question
import Dispatch.Proofs.Snapshot

/-!
# What the guard on a row says

The guard on operands in a row is made by merging the simplest guards on each of them, and merging
drops checks that are there already. Here it drops none, as no two checks are on the same operand.
So there is one check for each operand, in their order, and what the guard says of a row of values
is that it starts with values which the operands are `Alike` to: nil where they are nil, and
elsewhere values of the same exact type (`exact_ofOperands`). The guard of a write by index, which
is that on target and indexes with the value merged in behind, is the guard on the longer row
(`ofWrite_eq`).

Two guards on rows of one length are therefore equal just if the one holds on the values of the
other. Main statement: `row_guards_exact`.

In the runtime: `signature_guard`, and the guard of `SetIndexBinder.bind`.
-/

namespace Dispatch

/-- Whether two values are both nil, or neither is and they have the same exact type. -/
def Value.Alike (u v : Value) : Prop :=
  (u.isNil = true ∧ v.isNil = true) ∨ (u.isNil = false ∧ v.isNil = false ∧ u.type.id = v.type.id)

/-- The mark of a value is all that counts. -/
theorem Value.mark_eq_iff {u v : Value} : u.mark = v.mark ↔ u.Alike v := by
  constructor
  · intro h
    have hnil := isNil_eq_of_mark h
    cases hu : u.isNil with
    | true => exact .inl ⟨hu, hnil ▸ hu⟩
    | false => exact .inr ⟨hu, hnil ▸ hu, typeId_eq_of_mark h hu⟩
  · rintro (⟨hu, hv⟩ | ⟨hu, hv, hid⟩)
    · rw [mark_eq_none.mpr hu, mark_eq_none.mpr hv]
    · exact mark_eq_of_typeId hu hv hid

namespace Operand

variable {operands : List Operand} {value : Operand} {row : List Value} {v : Value}

theorem length_of_values (hrow : operands.map Operand.value = row.map some) :
    row.length = operands.length := by
  have hlen := congrArg List.length hrow
  rw [List.length_map, List.length_map] at hlen
  exact hlen.symm

theorem values_concat (hrow : operands.map Operand.value = row.map some)
    (hv : value.value = some v) :
    (operands ++ [value]).map Operand.value = (row ++ [v]).map some := by
  rw [List.map_append, List.map_append, hrow, List.map_singleton, List.map_singleton, hv]

end Operand

namespace Guard

/-- The guard of a write by index: on the target and the indexes, and on the value behind them. -/
def ofWrite (target : Operand) (indexes : List Operand) (value : Operand) : Guard :=
  (ofOperands (target :: indexes)).merge (simple (indexes.length + 1) value)

/-- One check for each value of a row, in their order, and no more said of other rows than that they
start with values like these. -/
structure Exact (g : Guard) (row : List Value) : Prop where
  checks : g.checks = row.mapIdx fun i v => .of i (.known v)
  positions : g.checks.map Check.operand = List.range row.length
  check : ∀ vs, g.check vs = true ↔ row.length ≤ vs.length ∧
    ∀ (i : Nat) (u v : Value), row[i]? = some u → vs[i]? = some v → u.Alike v

/-- One more operand in a row is one more guard merged in. -/
theorem ofOperands_concat (os : List Operand) (o : Operand) :
    ofOperands (os ++ [o]) = (ofOperands os).merge (simple os.length o) := by
  rw [ofOperands, List.mapIdx_concat, List.foldl_append]
  rfl

/-- The guard of a write by index is the guard on the whole row. -/
theorem ofWrite_eq (target : Operand) (indexes : List Operand) (value : Operand) :
    ofWrite target indexes value = ofOperands (target :: indexes ++ [value]) := by
  rw [ofOperands_concat]
  rfl

theorem length_checks_ofOperands (os : List Operand) :
    (ofOperands os).checks.length = os.length := by
  rw [ofOperands_eq, checks_ofChecks, List.length_mapIdx]

variable {operands others : List Operand} {row vs : List Value}

/-- The guard on a row does not depend on the types through which it is seen. -/
theorem ofOperands_of_values (hrow : operands.map Operand.value = row.map some) :
    ofOperands operands = ofChecks (row.mapIdx fun i v => .of i (.known v)) := by
  rw [ofOperands_eq]
  refine congrArg ofChecks ?_
  rw [List.mapIdx_eq_iff]
  intro i
  have hvalue := Operand.getElem?_values hrow i
  rw [List.getElem?_mapIdx]
  cases ho : operands[i]? with
  | none =>
    rw [ho] at hvalue
    rw [Option.map_eq_none_iff.mp hvalue.symm]
    rfl
  | some o =>
    rw [ho, Option.map_some] at hvalue
    obtain ⟨v, hv, hsome⟩ := Option.map_eq_some_iff.mp hvalue.symm
    rw [hv, Option.map_some, Option.map_some, Check.of_value hsome.symm]

/-- The guard on a row holds on the rows that start with values like those of the row. -/
theorem check_ofOperands_iff (hrow : operands.map Operand.value = row.map some) :
    (ofOperands operands).check vs = true ↔ row.length ≤ vs.length ∧
      ∀ (i : Nat) (u v : Value), row[i]? = some u → vs[i]? = some v → u.Alike v := by
  rw [check, ofOperands_of_values hrow, checks_ofChecks, List.all_eq_true]
  constructor
  · intro h
    have hpasses : ∀ {i : Nat} {u : Value}, row[i]? = some u →
        (Check.of i (.known u)).passes vs = true := by
      intro i u hu
      obtain ⟨hi, rfl⟩ := List.getElem?_eq_some_iff.mp hu
      exact h _ (List.mem_mapIdx.mpr ⟨i, hi, rfl⟩)
    constructor
    · -- a check on an operand that is not there would fail
      by_contra hshort
      have hpass := hpasses (List.getElem?_eq_getElem (Nat.lt_of_not_le hshort))
      have hnone : vs[vs.length]? = none := List.getElem?_eq_none (Nat.le_refl _)
      rw [Check.passes, Check.of, hnone] at hpass
      cases hpass
    · intro i u v hu hv
      exact Value.mark_eq_iff.mp ((Check.passes_of_known hv).mp (hpasses hu))
  · rintro ⟨hlen, halike⟩ c hc
    obtain ⟨i, hi, rfl⟩ := List.mem_mapIdx.mp hc
    have hv := List.getElem?_eq_getElem (Nat.lt_of_lt_of_le hi hlen)
    rw [Check.passes_of_known hv, Value.mark_eq_iff]
    exact halike i _ _ (List.getElem?_eq_getElem hi) hv

theorem exact_ofOperands (hrow : operands.map Operand.value = row.map some) :
    (ofOperands operands).Exact row where
  checks := by rw [ofOperands_of_values hrow, checks_ofChecks]
  positions := by
    rw [ofOperands_of_values hrow, checks_ofChecks]
    exact List.ext_getElem (by simp) fun i hi hi' => by simp [Check.of]
  check _ := check_ofOperands_iff hrow

/-- Guards on two rows of one length are equal just if the one holds on the other row. -/
theorem ofOperands_beq_iff {row' : List Value} (hrow : operands.map Operand.value = row.map some)
    (hrow' : others.map Operand.value = row'.map some) (hlen : others.length = operands.length) :
    (ofOperands operands == ofOperands others) = true ↔
      (ofOperands operands).check row' = true := by
  constructor
  · intro hsame
    rw [check_eq_of_beq hsame]
    exact check_ofOperands_of_isPrefix hrow' (List.prefix_refl _)
  · intro hcheck
    obtain ⟨-, halike⟩ := (check_ofOperands_iff hrow).mp hcheck
    have hmarks : row.map Value.mark = row'.map Value.mark := by
      refine List.ext_getElem ?_ fun i hi hi' => ?_
      · rw [List.length_map, List.length_map, Operand.length_of_values hrow,
          Operand.length_of_values hrow', hlen]
      rw [List.length_map] at hi hi'
      rw [List.getElem_map, List.getElem_map, Value.mark_eq_iff]
      exact halike i _ _ (List.getElem?_eq_getElem hi) (List.getElem?_eq_getElem hi')
    rw [ofOperands_of_values hrow, ofOperands_of_values hrow']
    exact ofChecks_beq (mapIdx_beq_of_marks (fun i u v h => Check.of_known_beq h i) hmarks)

end Guard

namespace Operation

variable {σ : Type} {s : Scope σ} {call : CallShape} {target value : Operand}
  {indexes : List Operand} {verdict : Verdict}

/-- Whatever is answered about a write by index to something that is not nil, the rule has the guard
on the target, the indexes and the value. -/
theorem guard_of_setIndex (hnil : target.isNil = false)
    (h : ((setIndex call).judge s (target :: indexes ++ [value])).Gives verdict) :
    (verdict.rule none).guard = .ofWrite target indexes value := by
  rw [List.cons_append, judge, hnil] at h
  have hresolve : ((setIndex call).resolve s target (indexes ++ [value])).Gives verdict := h
  rw [resolve_setIndex] at hresolve
  obtain ⟨answer, -, hverdict⟩ := Act.gives_bind hresolve
  obtain rfl := Act.gives_pure hverdict
  rw [Guard.ofWrite_eq]
  exact guard_settle

end Operation

namespace Guard

/-- The guard on a target and arguments with values is exact: it has one check for each of them, in
their order, and it holds on the rows that start with values like theirs, and on no others. So it
equals the guard on as many other operands just if it holds on their values. The same is true of the
guard of a write by index with these indexes, for one operand more, and that is the guard of every
rule that such a write comes to if the target is not nil. -/
theorem row_guards_exact {σ : Type} {target : Operand} {args : List Operand} {row : List Value}
    (hrow : (target :: args).map Operand.value = row.map some) :
    ((ofOperands (target :: args)).Exact row ∧
      (ofOperands (target :: args)).checks.length = args.length + 1 ∧
      ∀ (target' : Operand) (args' : List Operand) (row' : List Value),
        (target' :: args').map Operand.value = row'.map some → args'.length = args.length →
        ((ofOperands (target :: args) == ofOperands (target' :: args')) = true ↔
          (ofOperands (target :: args)).check row' = true)) ∧
    ∀ (value : Operand) (v : Value), value.value = some v →
      (ofWrite target args value).Exact (row ++ [v]) ∧
      (ofWrite target args value).checks.length = args.length + 2 ∧
      (∀ (target' : Operand) (args' : List Operand) (row' : List Value) (value' : Operand)
          (v' : Value),
        (target' :: args').map Operand.value = row'.map some → args'.length = args.length →
        value'.value = some v' →
        ((ofWrite target args value == ofWrite target' args' value') = true ↔
          (ofWrite target args value).check (row' ++ [v']) = true)) ∧
      ∀ (s : Scope σ) (call : CallShape) (verdict : Verdict), target.isNil = false →
        ((Operation.setIndex call).judge s (target :: args ++ [value])).Gives verdict →
        (verdict.rule none).guard = ofWrite target args value := by
  refine ⟨⟨exact_ofOperands hrow, length_checks_ofOperands _, fun target' args' row' hrow' hlen =>
    ofOperands_beq_iff hrow hrow' (congrArg (· + 1) hlen)⟩, fun value v hv => ?_⟩
  rw [ofWrite_eq]
  have hwrite := Operand.values_concat hrow hv
  refine ⟨exact_ofOperands hwrite, ?_, fun target' args' row' value' v' hrow' hlen hv' => ?_,
    fun s call verdict hnil h => ?_⟩
  · rw [length_checks_ofOperands, List.length_append]
    rfl
  · rw [ofWrite_eq]
    refine ofOperands_beq_iff hwrite (Operand.values_concat hrow' hv') ?_
    rw [List.length_append, List.length_append, List.length_cons, List.length_cons, hlen]
    rfl
  · rw [← ofWrite_eq]
    exact Operation.guard_of_setIndex hnil h

/-- A text indexed by a number and by nil, which is seen through another type: the guard is that of
another text with another number, and holds however many values come behind. -/
theorem row_guards_exact_text :
    (ofOperands [.known (.text "s"), .known (.integer 1), .knownAs .nil .text] ==
        ofOperands [.known (.text "t"), .known (.integer 7), .known .nil]) = true ∧
      (ofWrite (.known (.text "s")) [.known (.integer 1), .knownAs .nil .text]
        (.known (.boolean true))).check
          [.text "t", .integer 7, .nil, .boolean false, .nil] = true := by
  have hrow : [Operand.known (.text "s"), .known (.integer 1), .knownAs .nil .text].map
      Operand.value = [Value.text "s", .integer 1, .nil].map some := rfl
  obtain ⟨⟨-, -, hequal⟩, hwrite⟩ := row_guards_exact (σ := Unit) hrow
  refine ⟨(hequal (.known (.text "t")) [.known (.integer 7), .known .nil]
    [.text "t", .integer 7, .nil] rfl rfl).mpr rfl, ?_⟩
  obtain ⟨hexact, -⟩ := hwrite (.known (.boolean true)) _ rfl
  rw [hexact.check]
  refine ⟨by decide, fun i u v hu hv => Value.mark_eq_iff.mp ?_⟩
  match i with
  | 0 | 1 | 2 | 3 =>
    cases hu
    cases hv
    rfl
  | _ + 4 => cases hu

end Guard

end Dispatch
