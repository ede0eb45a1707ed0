import Dispatch.Proofs.Calling
import Dispatch.Proofs.Reentrancy
import Dispatch.Proofs.Snapshot
import Dispatch.Proofs.Typing

/-!
# Typed replay

Coercions are left out where the declared types agree already, so whether a kept rule may be used
again rests on its guard: it has to say of each operand that the fragment reads that it still is of
the type at which it is read, and of the function that is called that it still returns what the rule
counts on.

It does, for resolvers that build their fragments of what they are given (`Resolver.Builds`). What
such a resolver answers is made of the operands (`madeOf_of_answered`), on whatever operands the
guard holds these parts are as they should be (`parts_good`), and so whatever way a verdict comes
about, its rule is safe wherever its guard holds (`safe_of_canBe`). Since every rule that a call
site keeps was bound like that, all executions are typed (`execution_typed`).

In the runtime: `ensure_type`, `ensure_result` and `signature_guard`, in rules that
`CallSite.execute` replays.
-/

namespace Dispatch

variable {σ : Type}

/-- Operands, the first of them at position `start`, that may be read as they are. -/
def Parts.Offers (p : Parts) (start : Nat) (operands : List Operand) : Prop :=
  ∀ i o, operands[i]? = some o → p.type o.limitType ∧ p.read (start + i) o.limitType

/-- A resolver that builds its fragments of materials `m` and of what it is given: it reads the
operands as they are described, or the target of a member as the type that it is asked about, and
it calls functions only as the builder of a call does. -/
structure Resolver.Builds (m : Materials) (r : Resolver σ) : Prop where
  getMember : ∀ {p : Parts} {t member f}, p.toMaterials = m → p.type t → p.read 0 t →
    (r.getMember t member).Gives (.resolved f) → f.MadeOf p
  setMember : ∀ {p : Parts} {t member converted f}, p.toMaterials = m → p.type t → p.read 0 t →
    (∀ {u g}, p.type u → (converted u).Gives (.ok g) → g.MadeOf p) →
    (r.setMember t member converted).Gives (.resolved f) → f.MadeOf p
  getIndex : ∀ {p : Parts} {target indexes f}, p.toMaterials = m →
    p.Offers 0 (target :: indexes) → (r.getIndex target indexes).Gives (.ok f) → f.MadeOf p
  setIndex : ∀ {p : Parts} {target indexes value f}, p.toMaterials = m →
    p.Offers 0 (target :: (indexes ++ [value])) →
    (r.setIndex target indexes value).Gives (.ok f) → f.MadeOf p
  invokeMember : ∀ {p : Parts} {identity call target args member f}, p.toMaterials = m →
    p.type identity → p.Offers 0 (target :: args) →
    (r.invokeMember identity call target args member).Gives (.ok (some f)) → f.MadeOf p
  bindParameters : ∀ {p : Parts} {formal call args invoke f}, p.toMaterials = m →
    (∀ q ∈ formal, p.type q.type) → p.Offers 1 args →
    (∀ {fs : List Fragment}, (∀ g ∈ fs, g.MadeOf p) → (invoke fs).MadeOf p) →
    (r.bindParameters formal call args invoke).Gives (.ok f) → f.MadeOf p
  binary : ∀ {p : Parts} {operator left right f}, p.toMaterials = m →
    p.Offers 0 [left, right] → (r.binary operator left right).Gives (.ok f) → f.MadeOf p
  unary : ∀ {p : Parts} {operator operand f}, p.toMaterials = m →
    p.Offers 0 [operand] → (r.unary operator operand).Gives (.ok f) → f.MadeOf p
  convert : ∀ {p : Parts} {source t f}, p.toMaterials = m → p.type t → source.MadeOf p →
    (r.convert source t).Gives (.ok f) → f.MadeOf p

/-- Types, and routines that return what they are said to return. -/
def materials (T : Ty → Prop) (call : Body → List Value → Run σ Value) : Materials :=
  ⟨T, fun body t => body.Keeps call t⟩

/-- What a call site works on: values with types from a canonical set, functions told apart by who
they are, which return what they are declared to return. -/
structure World (T : Ty → Prop) (V : List Value → Prop) (call : Body → List Value → Run σ Value) :
    Prop where
  types : Ty.Canonical T
  handles : ∀ v, V v → ∀ y ∈ v, ∀ t ∈ y.handles, T t
  callables : ∀ u w, V u → V w → ∀ c d : Callable, .callable c ∈ u → .callable d ∈ w →
    c.identity = d.identity → c = d
  keeps : ∀ v, V v → ∀ c : Callable, .callable c ∈ v → c.body.Keeps call c.returns

/-- An operation is bound with types from the set, and with a result list for no values. -/
structure Backdrop.Proper (T : Ty → Prop) (op : Operation) (x : Backdrop) : Prop where
  operation : x.operation = op
  types : ∀ t, T t → T (x.types.identity t)
  emptyResult : ∃ storage values, x.emptyResult = .result storage values

/-- On these operands a fragment that is to produce a `t` is safe: what it produces is of its own
type and a `t`, and what it calls are functions. -/
structure Fragment.SafeOn (call : Body → List Value → Run σ Value) (operands : List Value) (t : Ty)
    (f : Fragment) : Prop where
  accepted : ∀ v, (f.evaluate call operands).Gives v → f.type.accepts v = true
  promised : ∀ v, (f.evaluate call operands).Gives v → t.accepts v = true
  callees : ∀ callee ∈ f.callees, ∀ v, (callee.evaluate call operands).Gives v →
    ∃ c, v = .callable c

namespace Fragment

variable {call : Body → List Value → Run σ Value} {operands : List Value} {p : Parts} {t : Ty}

theorem safeOn_raise (message : String) (u : Ty) : (raise message u).SafeOn call operands t where
  accepted v h := by
    rw [evaluate] at h
    exact absurd h Run.not_gives_throw
  promised v h := by
    rw [evaluate] at h
    exact absurd h Run.not_gives_throw
  callees := nofun

/-- A fragment made of good parts is safe where its type is expected, or anything. -/
theorem safeOn_of_madeOf (hp : p.Good call operands) {f : Fragment} (hf : f.MadeOf p)
    (ht : p.type t) (htype : t.isObject = true ∨ (f.type == t) = true) :
    f.SafeOn call operands t := by
  have haccepts := evaluate_accepts hp f hf
  refine ⟨haccepts, fun v h => ?_, fun callee hcallee v h => callee_callable hp hf hcallee h⟩
  rcases htype with hobject | hsame
  · rw [Ty.accepts, if_pos hobject]
  · have hown : p.type f.type :=
      type_of_madeOf (fun h => (hp.read h).1) (fun h => (hp.call h).1) f hf
    rw [← hp.types.eq_of_beq hown ht hsame]
    exact haccepts v h

end Fragment

/-- Materials alone. -/
def Materials.parts (m : Materials) : Parts :=
  { m with read := fun _ _ => False, call := fun _ _ => False }

theorem World.good {T : Ty → Prop} {V : List Value → Prop}
    {call : Body → List Value → Run σ Value} (hw : World T V call) (operands : List Value) :
    (materials T call).parts.Good call operands :=
  ⟨hw.types, id, False.elim, False.elim⟩

namespace Operation

/-- What a resolver is given to make a fragment of. -/
def parts (m : Materials) (op : Operation) (target : Operand) (rest : List Operand) : Parts :=
  { m with
    read := fun i t => ∃ o, (target :: rest)[i]? = some o ∧ t = o.limitType
    call := fun callee t =>
      callee = target.read 0 ∧ ∃ c, op.callee? target = some c ∧ t = c.returns }

section Answers

variable {m : Materials} {s : Scope σ} {op : Operation} {target : Operand} {rest : List Operand}
  {f : Fragment}

theorem parts_offers (htypes : ∀ o ∈ target :: rest, m.type o.limitType) :
    (op.parts m target rest).Offers 0 (target :: rest) := by
  intro i o ho
  rw [Nat.zero_add]
  exact ⟨htypes o (List.mem_of_getElem? ho), o, ho, rfl⟩

theorem parts_offers_rest (htypes : ∀ o ∈ target :: rest, m.type o.limitType) :
    (op.parts m target rest).Offers 1 rest := by
  intro i o ho
  rw [Nat.add_comm]
  exact ⟨htypes o (List.mem_cons_of_mem _ (List.mem_of_getElem? ho)), o, ho, rfl⟩

theorem read_madeOf : (target.read 0).MadeOf (op.parts m target rest) :=
  ⟨target, rfl, rfl⟩

/-- The converted value for a member is made of the value. -/
theorem madeOf_of_converted {value : Operand} {more : List Operand} (hb : s.resolver.Builds m)
    {u : Ty} (hu : m.type u) (h : (converted s.resolver value u).Gives (.ok f)) :
    f.MadeOf (op.parts m target (value :: more)) := by
  have hsource : (value.read 1).MadeOf (op.parts m target (value :: more)) := ⟨value, rfl, rfl⟩
  unfold converted at h
  dsimp only at h
  split at h
  next =>
    cases Act.gives_pure h
    exact hsource
  next => exact hb.convert rfl hu hsource h

/-- The fragment of a call is made of the arguments and of the call of the target. -/
theorem madeOf_of_answeredCall {call : CallShape} (hb : s.resolver.Builds m)
    (htypes : ∀ o ∈ target :: rest, m.type o.limitType)
    (hformal : ∀ c, target.callable? = some c → ∀ q ∈ c.formal, m.type q.type)
    (hcallee : op.callee? target = target.callable?)
    (h : AnsweredCall s.resolver call target rest f) : f.MadeOf (op.parts m target rest) := by
  obtain ⟨c, hc, h⟩ := h
  refine hb.bindParameters rfl (hformal c hc) (parts_offers_rest htypes) (fun hfs => ?_) h
  exact ⟨⟨rfl, c, hcallee.trans hc, rfl⟩, read_madeOf, Fragment.allMadeOf_iff.mpr hfs⟩

/-- What a building resolver answers is made of what it was given. -/
theorem madeOf_of_answered (hb : s.resolver.Builds m)
    (htypes : ∀ o ∈ target :: rest, m.type o.limitType)
    (hidentity : m.type (s.types.identity target.limitType))
    (hformal : ∀ c, target.callable? = some c → ∀ q ∈ c.formal, m.type q.type)
    (hreturns : m.type op.returns) (hn : rest.length + 1 = op.operandCount)
    (h : op.Answered s target rest f) : f.MadeOf (op.parts m target rest) := by
  have htarget : m.type target.limitType := htypes target (List.mem_cons_self ..)
  cases op with
  | getMember member => exact hb.getMember rfl htarget read_madeOf h
  | setMember member =>
    cases rest with
    | nil => exact absurd h id
    | cons value more =>
      exact hb.setMember rfl htarget read_madeOf (madeOf_of_converted hb) h
  | getIndex call => exact hb.getIndex rfl (parts_offers htypes) h
  | setIndex call =>
    cases rest with
    | nil => exact absurd h id
    | cons index more =>
      refine hb.setIndex rfl ?_ h
      rw [List.dropLast_append_getLast (List.cons_ne_nil index more)]
      exact parts_offers htypes
  | invoke call => exact madeOf_of_answeredCall hb htypes hformal rfl h
  | invokeMember member call =>
    rw [Answered] at h
    split at h
    next => exact madeOf_of_answeredCall hb htypes hformal rfl h
    next => exact hb.invokeMember rfl hidentity (parts_offers htypes) h
  | binary request =>
    obtain ⟨right, rfl⟩ : ∃ right, rest = [right] := List.length_eq_one_iff.mp (by
      rw [operandCount] at hn
      omega)
    exact hb.binary rfl (parts_offers htypes) h
  | unary operator =>
    obtain rfl : rest = [] := List.length_eq_zero_iff.mp (by
      rw [operandCount] at hn
      omega)
    exact hb.unary rfl (parts_offers htypes) h
  | convert t => exact hb.convert rfl hreturns read_madeOf h

/-- A fragment that is made to fit is made of the same parts, and has the type that is promised, if
not anything is. -/
theorem fit_madeOf {p : Parts} {empty : Value} (hT : Ty.Canonical p.type)
    (hpack : p.body .pack .result) (hempty : Ty.result.accepts empty = true)
    (hreturns : p.type op.returns) (hf : f.MadeOf p) :
    (op.fit empty f).MadeOf p ∧
      (op.returns.isObject = true ∨ ((op.fit empty f).type == op.returns) = true) := by
  have hresult : (f.returningResult empty).MadeOf p ∧
      ((f.returningResult empty).type == Ty.result) = true := by
    unfold Fragment.returningResult
    split
    next h => exact ⟨hf, h⟩
    next =>
      split
      next => exact ⟨⟨hf, hT.result, hempty⟩, rfl⟩
      next => exact ⟨⟨hT.result, hpack, hf, trivial⟩, rfl⟩
  have hobject : (f.returning .object).MadeOf p := by
    unfold Fragment.returning Fragment.coerce
    split
    next => exact hf
    next =>
      split
      next => exact ⟨hf, hT.object⟩
      next =>
        split
        next => exact hf
        next => exact ⟨hT.object, hf⟩
  cases op with
  | invoke call => exact ⟨hresult.1, .inr hresult.2⟩
  | invokeMember member call => exact ⟨hresult.1, .inr hresult.2⟩
  | convert t =>
    refine ⟨?_, .inr (f.type_coerce_beq t)⟩
    show (f.coerce t).MadeOf p
    unfold Fragment.coerce
    split
    next => exact hf
    next => exact ⟨hreturns, hf⟩
  | _ => exact ⟨hobject, .inl rfl⟩

end Answers

/-- The guard on all operands says what the operands are and, if one is called, which function. -/
theorem check_of_fullGuard {op : Operation} {target : Operand} {rest : List Operand}
    {w : List Value} (h : (op.fullGuard target rest).check w = true) :
    (Guard.ofOperands (target :: rest)).check w = true ∧
      ∀ c, op.callee? target = some c → c.guard.check w = true := by
  unfold fullGuard at h
  split at h
  next hnone =>
    refine ⟨h, fun c hc => ?_⟩
    rw [hnone] at hc
    cases hc
  next c hc =>
    rw [Guard.check_merge, Bool.and_eq_true] at h
    refine ⟨h.1, fun d hd => ?_⟩
    rw [hc] at hd
    cases hd
    exact h.2

end Operation

/-- An operand of which the check on a value holds is accepted where the value was read. -/
theorem Check.accepts_of_passes {i : Nat} {y v : Value} {w : List Value}
    (h : (Check.of i (.known y)).passes w = true) (hv : w[i]? = some v) :
    (Operand.known y).limitType.accepts v = true := by
  rw [passes_of_known hv] at h
  rw [Operand.limitType_known]
  cases hnil : y.isNil with
  | true => rfl
  | false =>
    have htype : (v.type == y.type) = true := Ty.beq_iff.mpr (Value.typeId_eq_of_mark h hnil).symm
    show y.type.accepts v = true
    rw [Ty.accepts, ← Value.isNil_eq_of_mark h, hnil]
    split
    next => rfl
    next => exact htype

namespace World

variable {T : Ty → Prop} {V : List Value → Prop} {call : Body → List Value → Run σ Value}
  {op : Operation} {s : Scope σ} {y : Value} {rest w : List Value}

theorem limitType (hw : World T V call) {u : List Value} (hu : V u) {o : Operand}
    (ho : o ∈ u.map .known) : T o.limitType := by
  obtain ⟨y, hy, rfl⟩ := List.mem_map.mp ho
  rw [Operand.limitType_known]
  split
  next => exact hw.types.object
  next => exact hw.handles u hu y hy _ y.type_mem_handles

/-- Where the guard of a call holds, a function is called that returns what the rule counts on. -/
theorem callee_keeps (hw : World T V call) {c : Callable} (hu : V (.callable c :: rest)) (hv : V w)
    (hguard : c.guard.check w = true) {v : Value} (hhead : w[0]? = some v) :
    ∃ d, v = .callable d ∧ d.body.Keeps call c.returns := by
  cases w with
  | nil => cases hhead
  | cons z args =>
    cases hhead
    cases hc : c.formalIsDeclared with
    | true =>
      obtain ⟨d, rfl, hreturns⟩ := (Callable.check_guard_of_declared hc).mp hguard
      have hown : T c.returns :=
        hw.handles _ hu _ (List.mem_cons_self ..) _ (by simp [Value.handles])
      have hother : T d.returns :=
        hw.handles _ hv _ (List.mem_cons_self ..) _ (by simp [Value.handles])
      refine ⟨d, rfl, ?_⟩
      rw [← hw.types.unique hother hown hreturns]
      exact hw.keeps _ hv d (List.mem_cons_self ..)
    | false =>
      obtain ⟨d, rfl, hidentity⟩ := (Callable.check_guard_of_not_declared hc).mp hguard
      obtain rfl := hw.callables _ _ hv hu d c (List.mem_cons_self ..) (List.mem_cons_self ..)
        hidentity
      exact ⟨d, rfl, hw.keeps _ hv d (List.mem_cons_self ..)⟩

/-- Where the guard on all operands holds, what is read and what is called is as it was for the
operands that the rule was made for. -/
theorem parts_good (hw : World T V call) (hu : V (y :: rest)) (hv : V w)
    (hguard : (op.fullGuard (.known y) (rest.map .known)).check w = true) :
    (op.parts (materials T call) (.known y) (rest.map .known)).Good call w := by
  obtain ⟨hoperands, hcallee⟩ := Operation.check_of_fullGuard hguard
  rw [Guard.check_ofOperands] at hoperands
  refine ⟨hw.types, id, ?_, ?_⟩
  · rintro i t ⟨o, ho, rfl⟩
    refine ⟨hw.limitType hu (List.mem_of_getElem? ho), fun v hread => ?_⟩
    have hmem : o ∈ (y :: rest).map Operand.known := List.mem_of_getElem? ho
    obtain ⟨z, -, rfl⟩ := List.mem_map.mp hmem
    exact Check.accepts_of_passes (hoperands i _ ho) hread
  · rintro callee t ⟨rfl, c, hc, rfl⟩
    have hcallable : y = .callable c := by
      have hsome := Operation.callable?_of_callee? hc
      rw [Operand.callable?_known] at hsome
      exact Value.callable?_eq_some.mp hsome
    subst hcallable
    refine ⟨hw.handles _ hu _ (List.mem_cons_self ..) _ (by simp [Value.handles]), fun v h => ?_⟩
    rw [Operand.read, Fragment.evaluate] at h
    split at h
    next z hz =>
      rw [Run.gives_pure h]
      exact hw.callee_keeps hu hv (hcallee c hc) hz
    next => exact absurd h Run.not_gives_throw

end World

namespace Operation

variable {T : Ty → Prop} {V : List Value → Prop} {call : Body → List Value → Run σ Value}
  {op : Operation} {x : Backdrop} {r : Resolver σ} {y : Value} {rest w : List Value}

/-- Whatever way a verdict comes about, its rule is safe wherever its guard holds. -/
theorem safe_of_canBe (hw : World T V call) (hpack : Body.pack.Keeps call .result)
    (hx : x.Proper T op) (hb : r.Builds (materials T call)) (hreturns : T op.returns)
    (hu : V (y :: rest)) (hn : rest.length + 1 = op.operandCount) (hv : V w) {verdict : Verdict}
    (h : op.CanBe (x.scope r) (.known y) (rest.map .known) verdict)
    (hguard : (verdict.rule none).applies w = true) :
    (verdict.rule none).fragment.SafeOn call w op.returns := by
  have hempty : Ty.result.accepts x.emptyResult = true := by
    obtain ⟨storage, values, he⟩ := hx.emptyResult
    rw [he]
    rfl
  have hclosed := hw.good w
  cases h with
  | settled hnil hverdict =>
    cases op with
    | convert t =>
      cases hverdict
      show (nilAs x.emptyResult t).SafeOn call w t
      unfold nilAs
      split
      next h =>
        exact Fragment.safeOn_of_madeOf hclosed ⟨hw.types.result, hempty⟩ hreturns
          (.inr (BEq.symm h))
      next =>
        split
        next h =>
          exact Fragment.safeOn_of_madeOf hclosed ⟨hw.types.text, rfl⟩ hreturns
            (.inr (BEq.symm h))
        next => exact Fragment.safeOn_of_madeOf hclosed hreturns hreturns (.inr BEq.rfl)
    | binary request => cases hverdict
    | _ =>
      cases hverdict
      exact Fragment.safeOn_raise _ _
  | @unchanged t hop hsame =>
    subst hop
    have hgood : ((convert t).parts (materials T call) (.known y) (rest.map .known)).Good call w :=
      hw.parts_good hu hv hguard
    refine Fragment.safeOn_of_madeOf hgood read_madeOf hreturns ?_
    rw [Bool.or_eq_true] at hsame
    exact hsame.symm
  | resolved hanswered =>
    have hgood := hw.parts_good hu hv hguard
    have htypes : ∀ o ∈ Operand.known y :: rest.map .known, T o.limitType :=
      fun o ho => hw.limitType hu (List.map_cons ▸ ho)
    have htarget := htypes _ (List.mem_cons_self ..)
    have hmade := madeOf_of_answered (s := x.scope r) hb htypes (hx.types _ htarget)
      (fun c hc q hq => ?_) hreturns (by rw [List.length_map]; exact hn) hanswered
    · obtain ⟨hfit, htype⟩ := fit_madeOf hw.types hpack hempty hreturns hmade
      exact Fragment.safeOn_of_madeOf hgood hfit hreturns htype
    · rw [Operand.callable?_known] at hc
      obtain rfl := Value.callable?_eq_some.mp hc
      refine hw.handles _ hu _ (List.mem_cons_self ..) _ ?_
      exact List.mem_cons_of_mem _ (List.mem_cons_of_mem _
        (List.mem_map_of_mem (c.formal_isSuffix.mem hq)))
  | absent hkind =>
    exact Fragment.safeOn_of_madeOf hclosed hw.types.object hreturns (.inl (by
      cases op <;> first | rfl | exact absurd hkind nofun))
  | refused => exact Fragment.safeOn_raise _ _

end Operation

namespace Engine

theorem gives_pack {values : List Value} {v : Value}
    (h : Act.Gives (pack (σ := σ) values) v) : ∃ storage vs, v = .result storage vs := by
  have hnew : ∀ vs, Act.Gives (newResult (σ := σ) vs) v → ∃ storage vs, v = .result storage vs := by
    intro vs h
    obtain ⟨storage, -, h⟩ := Act.gives_bind h
    exact ⟨storage, vs, Act.gives_pure h⟩
  match values, h with
  | [], h => exact hnew _ h
  | .result storage vs :: _, h => exact ⟨storage, vs, Act.gives_pure h⟩
  | .nil :: _, h | .boolean _ :: _, h | .integer _ :: _, h | .number _ :: _, h | .text _ :: _, h
  | .callable _ :: _, h | .object _ :: _, h => exact hnew _ h

/-- Packing makes result lists. -/
theorem pack_keeps (host : Host σ) : Body.pack.Keeps (call host) .result := by
  intro args v h
  obtain ⟨storage, vs, rfl⟩ := gives_pack (Run.gives_lift h)
  rfl

/-- The rule was bound for the operands by a resolver that builds. -/
def Built (host : Host σ) (T : Ty → Prop) (op : Operation) (operands : List Value) (r : Rule) :
    Prop :=
  ∃ (x : Backdrop) (resolver : Resolver (Engine σ)), x.Proper T op ∧
    resolver.Builds (materials T (call host)) ∧
    ∃ verdict, (op.judge (x.scope resolver) (operands.map .known)).Gives verdict ∧
      r = verdict.rule none

/-- What a typed call site is used for. -/
def typedTerms (host : Host σ) (T : Ty → Prop) (op : Operation) (V : List Value → Prop) :
    Terms where
  backdrop b := ∃ x, b = some x ∧ x.Proper T op
  bound v r := V v ∧ v.length = op.operandCount ∧ Built host T op v r
  nested := True

variable {host : Host σ} {index : Nat} {e t : Engine σ} {s : Site} {T : Ty → Prop}
  {op : Operation} {V : List Value → Prop} {v w : List Value} {r : Rule}

/-- A rule that was built for some operands holds on them, and is safe wherever it holds. -/
theorem Built.safe (h : Built host T op v r) (hworld : World T V (call host))
    (hreturns : T op.returns) (hv : V v) (hn : v.length = op.operandCount) :
    r.applies v = true ∧ ∀ w, V w → r.applies w = true →
      r.fragment.SafeOn (call host) w op.returns := by
  obtain ⟨x, resolver, hx, hb, verdict, hverdict, rfl⟩ := h
  obtain ⟨y, rest, rfl⟩ := List.exists_cons_of_length_pos (hn ▸ op.operandCount_pos)
  have hcanBe : op.CanBe (x.scope resolver) (.known y) (rest.map .known) verdict :=
    Operation.canBe_of_judge (by rw [List.length_map]; exact hn) hverdict
  have hvalues : ((y :: rest).map Operand.known).map Operand.value = (y :: rest).map some := by
    rw [List.map_map]
    rfl
  exact ⟨Operation.check_guard_of_canBe hvalues hcanBe, fun w hw happlies =>
    Operation.safe_of_canBe hworld (pack_keeps host) hx hb hreturns hv hn hw hcanBe happlies⟩

/-- Binding with a resolver that builds uses a typed call site as it is meant to be. -/
theorem binds_of_builds (hfallback : s.fallback = none)
    (hb : (host.resolver s.binder.dispatcher).Builds (materials T (call host)))
    (hr : (host.resolver s.binder.dispatcher).Within (Uses index s (typedTerms host T op V)))
    (hv : V v) : Binds host index s (typedTerms host T op V) v where
  within := bind_within Uses.refl Uses.trans hr (Uses.of_tally · _) _ _
  bound e r t hbackdrop h := by
    obtain ⟨x, hx, hproper⟩ := hbackdrop
    obtain ⟨d, binder, hd, hbinder, rfl⟩ := backdrop_eq_some.mp hx
    have hop : binder.operation = op := hproper.operation
    obtain ⟨hn, verdict, u, hverdict, hrule⟩ := judged_of_bound hd hbinder h
    rw [hop, List.length_map] at hn
    rw [hop] at hverdict
    refine ⟨hv, hn, _, _, hproper, hb, verdict, ⟨e, u, hverdict⟩, ?_⟩
    rw [hrule, hfallback]

/-- Whether it was kept or is bound now, the rule that a typed call site runs is safe. -/
theorem safe_of_ruleFor {es : List Site.Event} {u : Engine σ}
    (h : Reached index s (typedTerms host T op V) es t) (hnew : s.New)
    (hworld : World T V (call host)) (hreturns : T op.returns)
    (hb : Binds host index s (typedTerms host T op V) v) (hv : V v)
    (hn : v.length = op.operandCount) (hrule : (ruleFor host index v).exec t = (.ok r, u)) :
    r.fragment.SafeOn (call host) v op.returns := by
  cases hfound : (s.through es).cache.find? v with
  | some q =>
    rw [exec_ruleFor_of_found h.site hfound] at hrule
    cases hrule
    obtain ⟨w, ⟨hw, hwn, hbuilt⟩, -⟩ := h.kept hnew (List.mem_of_find?_eq_some hfound)
    exact (hbuilt.safe hworld hreturns hw hwn).2 v hv
      (List.find?_some (p := fun r : Rule => r.applies v) hfound)
  | none =>
    obtain ⟨missed, hmiss, hexec⟩ := h.exec_ruleFor_miss host hfound
    rw [hexec] at hrule
    split at hrule
    next q u' hbind =>
      cases hrule
      obtain ⟨-, -, hbuilt⟩ := hb.bound missed r u' hmiss.backdrop hbind
      obtain ⟨happlies, hsafe⟩ := hbuilt.safe hworld hreturns hv hn
      exact hsafe v hv happlies
    next => cases hrule
    next => cases hrule

/-- Executions of a call site without a rule to fall back on are typed, whatever was done before and
while: what is produced is of the type of the rule that ran, and of the type that the operation
promises, and what the rule calls are functions. -/
theorem execution_typed {x : Backdrop} (hs : e.sites[index]? = some s) (hnew : s.New)
    (hfallback : s.fallback = none) (hx : e.backdrop s.binder = some x) (hproper : x.Proper T op)
    (hreturns : T op.returns) (hworld : World T V (call host))
    (hb : (host.resolver s.binder.dispatcher).Builds (materials T (call host)))
    (hr : (host.resolver s.binder.dispatcher).Within (Uses index s (typedTerms host T op V)))
    (hroutines : Routines host index s (typedTerms host T op V)) :
    (∀ steps, (∀ v ∈ executed steps, V v) →
      ∃ es, Reached index s (typedTerms host T op V) es (after host index e steps)) ∧
    ∀ es t, Reached index s (typedTerms host T op V) es t →
      ∀ v, V v → v.length = op.operandCount →
        (∀ y u', (execute host index v).exec t = (.ok (.ok y), u') →
          ∃ r u, (ruleFor host index v).exec t = (.ok r, u) ∧
            (r.run (call host) v).exec u = (.ok (.ok y), u') ∧
            r.fragment.type.accepts y = true ∧ op.returns.accepts y = true) ∧
        ∀ r u, (ruleFor host index v).exec t = (.ok r, u) →
          ∀ callee ∈ r.fragment.callees, ∀ y, (callee.evaluate (call host) v).Gives y →
            ∃ c, y = .callable c := by
  refine ⟨fun steps hsteps => ?_, fun es t h v hv hn => ⟨fun y u' hy => ?_, fun r u hrule => ?_⟩⟩
  · have hreached : Reached index s (typedTerms host T op V) [] e := ⟨hs, .new, x, hx, hproper⟩
    obtain ⟨es, hafter, -⟩ :=
      hreached.after hroutines fun v hv => binds_of_builds hfallback hb hr (hsteps v hv)
    exact ⟨es, hafter⟩
  · rw [exec_execute] at hy
    split at hy
    next r u hrule =>
      have hbinds := binds_of_builds hfallback hb hr hv
      have hsafe := safe_of_ruleFor h hnew hworld hreturns hbinds hv hn hrule
      exact ⟨r, u, hrule, hy, hsafe.accepted y ⟨u, u', hy⟩, hsafe.promised y ⟨u, u', hy⟩⟩
    next => cases hy
  · exact (safe_of_ruleFor h hnew hworld hreturns (binds_of_builds hfallback hb hr hv) hv hn
      hrule).callees

end Engine

section Counting

/-- A host whose first routine returns nothing, and whose others count their arguments. -/
def countingHost : Host Unit where
  resolver _ := smallResolver
  routine index args := pure (if index = 0 then .nil else .integer (Int64.ofNat args.length))

/-- Functions of one type that count their arguments. -/
def counter (identity : Nat) : Callable :=
  .declared ⟨identity⟩ "count" unaryType .integer (.native 1)

/-- The type of the counters, and the built-in types. -/
def CountingType (t : Ty) : Prop :=
  t ∈ unaryType :: Ty.builtins

theorem canonical_countingType : Ty.Canonical CountingType where
  builtin _ ht := List.mem_cons_of_mem _ ht
  unique hs ht := List.inj_on_of_nodup_map
    (by decide : ((unaryType :: Ty.builtins).map Ty.id).Nodup) hs ht
  boolean {t} ht := (by decide : ∀ t ∈ unaryType :: Ty.builtins,
    t.kind = .boolean → t.id = Ty.boolean.id) t ht
  integer {t} ht := (by decide : ∀ t ∈ unaryType :: Ty.builtins,
    t.kind = .integer → t.id = Ty.integer.id) t ht
  number {t} ht := (by decide : ∀ t ∈ unaryType :: Ty.builtins,
    t.kind = .number → t.id = Ty.number.id) t ht

theorem countingHost_keeps {index : Nat} {t : Ty}
    (h : t.accepts (if index = 0 then .nil else .integer 0) = true) :
    (Body.native index).Keeps (Engine.call countingHost) t := by
  intro args v hv
  rw [Run.gives_pure hv]
  split
  next hi =>
    rw [if_pos hi] at h
    exact h
  next hi =>
    rw [if_neg hi] at h
    exact h

/-- The small resolver builds its fragments of what it is given. -/
theorem smallResolver_builds {m : Materials} (hT : Ty.Canonical m.type)
    (hvoid : m.body (.native 0) .void) (hobject : m.body (.native 0) .object) :
    (smallResolver : Resolver σ).Builds m where
  getMember _ _ _ h := nomatch Act.gives_pure h
  setMember := by
    rintro p t member converted f rfl - hread hconverted h
    obtain ⟨answer, hanswer, h⟩ := Act.gives_bind h
    cases answer with
    | ok value =>
      cases Act.gives_pure h
      have hvalue := hconverted (hT.builtin .integer (by simp [Ty.builtins])) hanswer
      exact ⟨hT.builtin .void (by simp [Ty.builtins]), hvoid, hread, hvalue, trivial⟩
    | error reason => cases Act.gives_pure h
  getIndex _ _ h := nomatch Act.gives_pure h
  setIndex _ _ h := nomatch Act.gives_pure h
  invokeMember _ _ _ h := nomatch Act.gives_pure h
  bindParameters := by
    rintro p formal call args invoke f rfl - hoffers hinvoke h
    unfold smallResolver at h
    dsimp only at h
    split at h
    next =>
      cases Act.gives_pure h
      refine hinvoke fun g hg => ?_
      obtain ⟨i, hi, rfl⟩ := List.mem_mapIdx.mp hg
      have hread := (hoffers i _ (List.getElem?_eq_getElem hi)).2
      rw [Nat.add_comm] at hread
      exact hread
    next => cases Act.gives_pure h
  binary := by
    rintro p operator left right f rfl hoffers h
    cases Act.gives_pure h
    exact ⟨hT.object, hobject, (hoffers 0 left rfl).2, (hoffers 1 right rfl).2, trivial⟩
  unary _ _ h := nomatch Act.gives_pure h
  convert _ _ _ h := nomatch Act.gives_pure h

/-- Calls of counters, or of nil, with an integer. -/
abbrev Countings : List Value → Prop :=
  CallsOf [.nil, .callable (counter 1), .callable (counter 2)]

theorem mem_counters {v : List Value} (hv : Countings v) {c : Callable} (hc : .callable c ∈ v) :
    c ∈ [counter 1, counter 2] := by
  obtain ⟨y, hy, i, rfl⟩ := hv
  simp only [List.mem_cons, List.not_mem_nil, or_false, reduceCtorEq] at hy hc
  subst hc
  simpa using hy

theorem world_countings : World CountingType Countings (Engine.call countingHost) where
  types := canonical_countingType
  handles := by
    rintro _ ⟨y, hy, i, rfl⟩ z hz t ht
    simp only [List.mem_cons, List.not_mem_nil, or_false] at hy hz
    have hinteger : CountingType .integer :=
      canonical_countingType.builtin _ (by simp [Ty.builtins])
    rcases hz with rfl | rfl
    · have hcounter : ∀ n, t ∈ (Value.callable (counter n)).handles → CountingType t := by
        intro n ht
        have hcases : t = unaryType ∨ t = .integer := by
          simpa [Value.handles, counter, Callable.declared, unaryType, Ty.delegate] using ht
        rcases hcases with rfl | rfl
        · exact List.mem_cons_self ..
        · exact hinteger
      rcases hy with rfl | rfl | rfl
      · rw [List.mem_singleton.mp ht]
        exact canonical_countingType.object
      · exact hcounter 1 ht
      · exact hcounter 2 ht
    · rw [List.mem_singleton.mp ht]
      exact hinteger
  callables u w hu hw c d hc hd := List.inj_on_of_nodup_map
    (by decide : ([counter 1, counter 2].map Callable.identity).Nodup) (mem_counters hu hc)
    (mem_counters hw hd)
  keeps v hv c hc := by
    have hmem := mem_counters hv hc
    simp only [List.mem_cons, List.not_mem_nil, or_false] at hmem
    rcases hmem with rfl | rfl <;> exact countingHost_keeps rfl

/-- What a registry gives out is among its types, or what it was asked about. -/
theorem Registry.identity_of_types {T : Ty → Prop} {types : Registry}
    (h : ∀ t ∈ types.types, T t) (t : Ty) (ht : T t) : T (types.identity t) := by
  rw [identity]
  cases hfound : types.get? t.id with
  | none => exact ht
  | some u => exact h u (List.mem_of_find?_eq_some hfound)

/-- One counter is called, and then another one through the same rule. -/
theorem execution_typed_counting :
    ∃ r u y u', (Engine.ruleFor countingHost 0 [.callable (counter 2), .integer 5]).exec
        (Engine.after countingHost 0 (smallEngine (.invoke (.positional 1)) 4)
          [.execute [.callable (counter 1), .integer 7]]) = (.ok r, u) ∧
      (r.run (Engine.call countingHost) [.callable (counter 2), .integer 5]).exec u =
        (.ok (.ok y), u') ∧
      r.fragment.type.accepts y = true ∧ Ty.result.accepts y = true ∧
      r.fragment.callees = [.operand 0 unaryType] ∧
      ∀ callee ∈ r.fragment.callees, ∀ z, (callee.evaluate (Engine.call countingHost)
        [.callable (counter 2), .integer 5]).Gives z → ∃ c, z = .callable c := by
  have hrow : ∀ {y}, y ∈ [Value.nil, .callable (counter 1), .callable (counter 2)] → ∀ i,
      Countings [y, .integer i] := fun hy i => ⟨_, hy, i, rfl⟩
  have hproper : (smallBackdrop (.invoke (.positional 1))).Proper CountingType
      (.invoke (.positional 1)) :=
    ⟨rfl, Registry.identity_of_types canonical_countingType.builtin, _, _, rfl⟩
  have hsite : (smallEngine (.invoke (.positional 1)) 4).sites[0]? =
      some (smallSite (.invoke (.positional 1)) 4) := rfl
  obtain ⟨hafter, htyped⟩ := Engine.execution_typed hsite ⟨rfl, rfl, rfl⟩ rfl rfl hproper
    canonical_countingType.result world_countings
    (smallResolver_builds canonical_countingType (countingHost_keeps rfl) (countingHost_keeps rfl))
    (Engine.smallResolver_within Engine.Uses.refl Engine.Uses.trans) (fun _ _ => Engine.Uses.refl)
  obtain ⟨es, hreached⟩ := hafter [.execute [.callable (counter 1), .integer 7]] (by
    intro v hv
    rw [List.mem_singleton.mp hv]
    exact hrow (List.mem_cons_of_mem _ (List.mem_cons_self ..)) 7)
  obtain ⟨hproduced, hcallees⟩ := htyped es _ hreached [.callable (counter 2), .integer 5]
    (hrow (by simp) 5) rfl
  obtain ⟨r, u, hrule, hrun, haccepted, hpromised⟩ := hproduced _ _ rfl
  have hcalled := hcallees r u hrule
  cases hrule
  exact ⟨_, _, _, _, rfl, hrun, haccepted, hpromised, rfl, hcalled⟩

end Counting

end Dispatch
